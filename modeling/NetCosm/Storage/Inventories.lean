import NetCosm.Storage.Encoding
import NetCosm.Storage.UserRoundTrip

/-!
# Inventories that are written and loaded

Reference counts are not written.  `userdb_init` makes them anew: `obj_read` returns an object with one reference, with
which it is stored under its name, and for each alias there is another one.  `CountsPairs` says that they are right
then: each object has as many references as there are pairs of it in the inventories.

`userFile_restores_iff` says when what `userdb_write` has written is loaded as the same database with the right counts:
if and only if it is portable (`NetCosm.Storage.UserRoundTrip`), no alias is the empty string, and no object has
`2 ^ 32` keys, which is where its counter comes around.

## Empty aliases

The empty string is what ends the list of the aliases in the file, so what is behind an empty alias is read as
something else, and may be anything.  But no object that was read has an empty alias (`preserves_readUserdb`), and
so the objects are not the same.
-/

namespace NetCosm

namespace Storage

open Reader

variable {U V : Type} {classes : CString → Option (ObjHooks U)} {cb : UserCallbacks V} {asserts : Bool}
  {h s : ObjStore U} {map map' : UserTable V}

/-! ## What is never read -/

/-- No object in memory has an empty alias. -/
def NoEmptyAlias (h : ObjStore U) : Prop :=
  ∀ addr o, h.objects addr = some o → ∀ a ∈ o.aliasList, a.bytes ≠ []

theorem noEmptyAlias_init : NoEmptyAlias (ObjStore.init : ObjStore U) := fun _ o ho =>
  absurd ho.symm (Option.some_ne_none o)

theorem NoEmptyAlias.update (hh : NoEmptyAlias h) {o : StoredObject U} {addr : ℕ}
    (hs : s.objects = Function.update h.objects addr (some o)) (ho : ∀ a ∈ o.aliasList, a.bytes ≠ []) :
    NoEmptyAlias s := by
  intro a o' ho'
  rw [hs, Function.update_apply] at ho'
  split at ho'
  · exact Option.some.inj ho' ▸ ho
  · exact hh a o' ho'

/-- `obj_read` returns no object with an empty alias. -/
theorem preserves_objRead : Preserves NoEmptyAlias (fun _ => True) (objRead classes) := by
  have hnew : ∀ className, Preserves NoEmptyAlias (fun _ => True)
      (lift (objNew classes className) : FileReader (ObjStore U) (ℕ × ObjHooks U)) := by
    refine fun className => preserves_lift fun h hh => ?_
    rw [objNew]
    cases classes className with
    | none => trivial
    | some c => exact ⟨trivial, hh.update rfl fun _ ha => absurd ha List.not_mem_nil⟩
  have hfields : Preserves NoEmptyAlias (fun x => ∀ a ∈ x.2.2.aliasList, a.bytes ≠ []) (objReadFields classes) := by
    refine preserves_readString.bind fun className _ => ?_
    refine (hnew className).bind fun _ _ => ?_
    refine preserves_readUint64.bind fun id _ => ?_
    refine preserves_readString.bind fun name _ => ?_
    refine preserves_readBool.bind fun hidden _ => ?_
    refine preserves_readBool.bind fun defaultArticle _ => ?_
    refine Preserves.bind (preserves_withFuel fun n => preserves_readAliases n fun _ ha => absurd ha List.not_mem_nil)
      fun aliasList hne => ?_
    exact preserves_pure hne
  refine hfields.bind fun x hne => ?_
  refine preserves_ofFile.bind fun userdata _ => ?_
  exact preserves_lift fun h hh => ⟨trivial, hh.update rfl hne⟩

/-- Storing an object changes its count only. -/
theorem preserves_storeObject (m : ObjTable) (addr : ℕ) :
    Preserves NoEmptyAlias (fun _ => True) (lift (storeObject asserts m addr) : FileReader (ObjStore U) ObjTable) := by
  refine preserves_lift fun h hh => ?_
  rw [storeObject]
  cases hobj : h.objects addr with
  | none => trivial
  | some obj =>
    dsimp only
    have hname : insertKey asserts m obj.name addr h =
        (multimapInsert (roomEnv asserts) m obj.name addr).map fun r => (r.2, h) := rfl
    show Sat _ (insertKey asserts m obj.name addr h >>= _) _
    rw [hname]
    cases multimapInsert (roomEnv asserts) m obj.name addr with
    | error e => trivial
    | ok r =>
      show Sat _ (obj.aliasList.foldlM (insertAlias asserts addr) r.2 h) _
      rw [foldlM_insertAlias obj.aliasList r.2 h hobj]
      refine sat_map ?_
      cases insertPairs (roomEnv asserts) r.2 (obj.aliasList.map (·, addr)) with
      | error e => trivial
      | ok m' => exact ⟨trivial, hh.update rfl (hh addr obj hobj)⟩

theorem preserves_readUser (image : List UInt8) (hlen : image.length = sizeofUserdata) (map : UserTable V) :
    Preserves NoEmptyAlias (fun _ => True) (readUser classes cb asserts image hlen map) := by
  have hobject : ∀ m, Preserves NoEmptyAlias (fun _ => True) (readObject classes asserts m) :=
    fun m => preserves_objRead.bind fun addr _ => preserves_storeObject m addr
  have htail : Preserves NoEmptyAlias (fun _ => True) (readUserTail classes cb asserts image hlen) := by
    refine preserves_readUint64.bind fun n _ => ?_
    refine (preserves_forUnsigned (fun _ m _ => hobject m) _ trivial).bind fun objects _ => ?_
    exact preserves_ofFile.bind fun userdata _ => preserves_pure trivial
  exact htail.bind fun user _ => preserves_call.bind fun _ _ => preserves_pure trivial

theorem preserves_readUsers (n : ℕ) (map : UserTable V) :
    Preserves NoEmptyAlias (fun _ => True) (readUsers classes cb asserts n map) := by
  induction n generalizing map with
  | zero => exact preserves_pure trivial
  | succ n ih =>
    refine preserves_readUpTo.bind fun image _ => ?_
    split
    · rename_i hlen
      exact (preserves_readUser image hlen map).bind fun map' _ => ih map'
    · exact preserves_pure trivial

/-- **No object that `userdb_init` reads has an empty alias.** -/
theorem preserves_readUserdb : Preserves NoEmptyAlias (fun _ => True) (readUserdb classes cb asserts) := by
  refine preserves_readUint32.bind fun magic _ => ?_
  split
  · exact preserves_fail
  · exact preserves_readUint64.bind fun n _ => preserves_readUsers n.toNat _

/-! ## References -/

/-- Every object in an inventory is there, and has as many references as there are pairs of it in the inventories. -/
def CountsPairs (s : ObjStore U) (map : UserTable V) : Prop :=
  ∀ p ∈ inventoryPairs map, ∃ o, s.objects p.val = some o ∧
    o.refcount.toNat = (keysAt (inventoryPairs map) p.val).length

/-- **The counts are right if and only if they fit in an `unsigned`.** -/
theorem RebuiltUserdb.countsPairs_iff (hr : RebuiltUserdb asserts h s map map') :
    CountsPairs s map' ↔ ∀ o ∈ allHeld h map, o.keys.length < 2 ^ 32 := by
  obtain ⟨addr, -, hholds, hperm⟩ := hr.pairs
  have hcount : ∀ (o : StoredObject U) (n : ℕ), (o.restored n).refcount.toNat = n ↔ n < 2 ^ 32 := fun o n => by
    show (UInt32.ofNat n).toNat = n ↔ _
    rw [UInt32.toNat_ofNat']
    exact ⟨fun heq => heq ▸ Nat.mod_lt n (by decide), Nat.mod_eq_of_lt⟩
  constructor
  · intro hcounts o ho
    obtain ⟨a, hmem, hobj⟩ := hholds.exists_name ho
    obtain ⟨p, hp, hpair⟩ := List.mem_map.mp (hperm.mem_iff.mpr hmem)
    obtain rfl : p.val = a := congrArg Prod.snd hpair
    obtain ⟨o₁, hobj₁, href⟩ := hcounts p hp
    obtain ⟨o₂, -, hobj₂, hkeys⟩ := hholds.keysAt hperm hp
    obtain rfl := Option.some.inj (hobj.symm.trans hobj₁)
    have hsame : (o.restored o.keys.length).keys = (o₂.restored o₂.keys.length).keys :=
      congrArg (fun o : StoredObject U => o.keys) (Option.some.inj (hobj.symm.trans hobj₂))
    rw [hkeys.length_eq, show o₂.keys = o.keys from hsame.symm] at href
    exact (hcount o _).mp href
  · intro hlt p hp
    obtain ⟨o, ho, hobj, hkeys⟩ := hholds.keysAt hperm hp
    refine ⟨_, hobj, ?_⟩
    rw [hkeys.length_eq]
    exact (hcount o _).mpr (hlt o ho)

/-! ## When a database is restored -/

/-- The database is written to a file, a process that has just been started loads it from there, and then it is the
same database, with the right counts. -/
def UserFileRestores (classes : CString → Option (ObjHooks U)) (cb : UserCallbacks V) (asserts : Bool)
    (h : ObjStore U) (map : UserTable V) : Prop :=
  ∃ file, userdbWrite classes cb h map = .ok file ∧ ∃ map' s,
    userdbInit classes cb asserts ObjStore.init (some file) = .ok (map', s) ∧
      SameUserdb asserts h s map map' ∧ CountsPairs s map'

/-- An object of a known class, with hooks that are inverse to each other, whose strings fit in memory. -/
structure Legible (classes : CString → Option (ObjHooks U)) (o : StoredObject U) : Prop where
  hooks : ∃ c, classes o.cls = some c ∧ c.Restores o
  cls_fits : Fits o.cls
  name_fits : Fits o.name
  alias_fits : ∀ a ∈ o.aliasList, Fits a

/-- The inventories of a running server: each object is stored once under its name and once under each alias, and the
hooks and the callbacks are inverse to each other. -/
structure HeldUserdb (classes : CString → Option (ObjHooks U)) (cb : UserCallbacks V) (h : ObjStore U)
    (map : UserTable V) : Prop where
  stored_lt : map.stored < 2 ^ 64
  legible : ∀ user ∈ usersOf map, ∀ o ∈ heldObjects h user, Legible classes o
  objects_lt : ∀ user ∈ usersOf map, (heldObjects h user).length < 2 ^ 64
  restores : ∀ user ∈ usersOf map, cb.Restores user.userdata
  objects : ∀ user ∈ usersOf map, ∀ objects ∈ user.objects, KeptObjects h objects

/-- Without empty aliases all of it can be read back. -/
theorem HeldUserdb.kept (hheld : HeldUserdb classes cb h map)
    (hne : ∀ o ∈ allHeld h map, ∀ a ∈ o.aliasList, a.bytes ≠ []) : KeptUserdb classes cb h map where
  stored_lt := hheld.stored_lt
  users user hu :=
    { objects := fun o ho =>
        let hlegible := hheld.legible user hu o ho
        { hooks := hlegible.hooks
          cls_fits := hlegible.cls_fits
          name_fits := hlegible.name_fits
          alias_fits := hlegible.alias_fits
          alias_ne := hne o (List.mem_flatMap.mpr ⟨user, hu, ho⟩) }
      objects_lt := hheld.objects_lt user hu
      restores := hheld.restores user hu }
  objects := hheld.objects

/-- What is the same as something without empty aliases has none. -/
theorem SameUserdb.alias_ne (hmap : InOrder asserts map) (hsame : SameUserdb asserts h s map map')
    (hs : NoEmptyAlias s) : ∀ o ∈ allHeld h map, ∀ a ∈ o.aliasList, a.bytes ≠ [] := by
  intro o ho
  obtain ⟨user, huser, ho⟩ := List.mem_flatMap.mp ho
  obtain ⟨n, hn, rfl⟩ := List.mem_map.mp huser
  have hfound := hsame.users n.key
  rw [lookup_of_mem_nodes hmap.placed hn] at hfound
  generalize hashLookup (namesEnv asserts) map' n.key = found at hfound
  cases hfound with
  | some hsame =>
    obtain ⟨objects, objects', hobjects, -, ⟨f, -, -, hobj⟩, -⟩ := hsame.objects
    rw [heldObjects, hobjects] at ho
    obtain ⟨p, hp, hnamed⟩ := List.mem_filterMap.mp ho
    exact hs _ (o.restored _) (hobj p hp o (Option.filter_eq_some_iff.mp hnamed).1)

/-- A database that is restored has no object with an empty alias. -/
theorem UserFileRestores.alias_ne (hmap : InOrder asserts map)
    (hrestores : UserFileRestores classes cb asserts h map) :
    ∀ o ∈ allHeld h map, ∀ a ∈ o.aliasList, a.bytes ≠ [] := by
  obtain ⟨file, -, map', s, hload, hsame, -⟩ := hrestores
  obtain ⟨x, hx, heq⟩ := map_eq_ok (x := on (readUserdb classes cb asserts) file ObjStore.init) hload
  obtain ⟨-, rfl⟩ := Prod.mk.inj heq
  exact hsame.alias_ne hmap (preserves_readUserdb.of_ok noEmptyAlias_init hx).2

/-- Nothing in the database stops it from being restored. -/
structure RestorableUserdb (asserts : Bool) (h : ObjStore U) (map : UserTable V) : Prop
    extends PortableUserdb asserts h map where
  alias_ne : ∀ o ∈ allHeld h map, ∀ a ∈ o.aliasList, a.bytes ≠ []
  keys_lt : ∀ o ∈ allHeld h map, o.keys.length < 2 ^ 32

/-- **Databases are restored if and only if they are portable, no alias is empty, and no object has too many keys**, in
every state of every run. -/
theorem userFile_restores_iff {ops : List (UserdbOp CString ℕ)} {db : Userdb CString ℕ}
    (hrun : Runs.run (userdbStep asserts) Userdb.init ops = .ok db) (hstored : StoredFrom db map)
    (hheld : HeldUserdb classes cb h map) :
    UserFileRestores classes cb asserts h map ↔ RestorableUserdb asserts h map := by
  have hmap := inOrder_of_run hrun hstored
  constructor
  · intro hrestores
    have hne := hrestores.alias_ne hmap
    have hk := hheld.kept hne
    obtain ⟨file, hfile, map', s, hload, hsame, hcounts⟩ := hrestores
    obtain ⟨-, -, hrebuilt⟩ := hk.rebuilt hmap hfile hload
    exact ⟨hsame.portable hk hmap hfile hload, hne, hrebuilt.countsPairs_iff.mp hcounts⟩
  · intro hrestorable
    have hk := hheld.kept hrestorable.alias_ne
    obtain ⟨file, hfile, map', s, hload, hsame, -⟩ := hrestorable.toPortableUserdb.roundTrips hmap hk ObjStore.init
    obtain ⟨-, -, hrebuilt⟩ := hk.rebuilt hmap hfile hload
    exact ⟨file, hfile, map', s, hload, hsame, hrebuilt.countsPairs_iff.mpr hrestorable.keys_lt⟩

/-! ### The collier and the miners -/

theorem storedFrom_colliers : StoredFrom (minerDb (shelf 1 [lump 1])) colliers := by
  have hcount : (shelf 1 [lump 1]).refcount = 1 := by decide +kernel
  refine ⟨_, rfl, fun n hn => ?_⟩
  rw [minerDb, nodes_minerTable] at hn
  obtain rfl := List.mem_singleton.mp hn
  refine ⟨rfl, ?_⟩
  show some (shelf 1 [lump 1]) = some { shelf 1 [lump 1] with refcount := 1 }
  rw [← hcount]

theorem held_colliers : HeldUserdb collieryModule.objClasses litHooks coalStore colliers where
  stored_lt := keptUserdb_colliers.stored_lt
  legible user hu o ho :=
    let hr := (keptUserdb_colliers.users user hu).objects o ho
    ⟨hr.hooks, hr.cls_fits, hr.name_fits, hr.alias_fits⟩
  objects_lt user hu := (keptUserdb_colliers.users user hu).objects_lt
  restores user hu := (keptUserdb_colliers.users user hu).restores
  objects := keptUserdb_colliers.objects

/-- The miner comes back with the lump of coal, which has two names and two references. -/
theorem colliers_restore : UserFileRestores collieryModule.objClasses litHooks true coalStore colliers := by
  refine (userFile_restores_iff (minerDb_run _) storedFrom_colliers held_colliers).mpr
    { portable_colliers with alias_ne := ?_, keys_lt := ?_ }
  all_goals
    rw [allHeld_colliers]
    refine List.forall_mem_singleton.mpr ?_
  · exact (by decide : ∀ a ∈ [lumpName], a.bytes ≠ [])
  · exact (by decide : 2 < 2 ^ 32)

/-- The inventory of a miner with one rock. -/
theorem held_miners {aliases : List CString}
    (htakes : Takes (roomEnv true) 8 ((rocks aliases 1).flatMap fun o => o.keys))
    (haliases : ∀ a ∈ aliases, Fits a) (hlt : keyCount (rocks aliases 1) < 2 ^ 64) :
    HeldUserdb quarryModule.objClasses minerCallbacks (rockStore aliases 1) (miners (rockTable aliases 1)) := by
  refine ⟨?_, fun user huser => ?_, fun user huser => ?_, fun user huser => ?_, fun user huser objects hobj => ?_⟩
  · rw [miners, stored_mapData, HashMap.stored, minerDb, nodes_minerTable]
    decide
  all_goals
    rw [usersOf_miners] at huser
    obtain rfl := List.mem_singleton.mp huser
  · intro o ho
    obtain ⟨i, -, rfl⟩ := exists_rock_of_saved htakes ho
    exact ⟨⟨⟨none, none⟩, rfl, fun rest => rfl⟩, (by decide : Fits rockName), (by decide : Fits rockName), haliases⟩
  · exact (length_saved_le htakes).trans_lt hlt
  · exact fun rest => rfl
  · obtain rfl := Option.some.inj hobj
    obtain ⟨hlive, hkeys⟩ := keptObjects_rocks htakes
    exact ⟨hlive, hkeys⟩

/-- A miner with one rock, which has these aliases, can be in the database of a running server, and is not restored. -/
def LosesRock (aliases : List CString) : Prop :=
  Runs.run (userdbStep true) Userdb.init (minerOps (rockTable aliases 1)) = .ok (minerDb (rockTable aliases 1)) ∧
    StoredFrom (minerDb (rockTable aliases 1)) (miners (rockTable aliases 1)) ∧
    HeldUserdb quarryModule.objClasses minerCallbacks (rockStore aliases 1) (miners (rockTable aliases 1)) ∧
    ¬ UserFileRestores quarryModule.objClasses minerCallbacks true (rockStore aliases 1) (miners (rockTable aliases 1))

/-- **Databases that are not restored**: with a rock that has the empty string for an alias, and with a rock that has
its own name for one. -/
theorem miners_not_restored : LosesRock [default] ∧ LosesRock [rockName] := by
  have horder : ∀ objects, InOrder true (miners objects) :=
    fun objects => inOrder_of_run (minerDb_run objects) (storedFrom_miners objects)
  have hheld := held_miners ⟨_, rfl⟩ (by decide : ∀ a ∈ [default], Fits a) (by decide)
  have hheld' := held_miners ⟨_, rfl⟩ (by decide : ∀ a ∈ [rockName], Fits a) (by decide)
  have hempty : (rock [default] 0).restored 2 ∈ savedObjects (rockStore [default] 1) (rockTable [default] 1) :=
    List.mem_of_getElem? (i := 0) rfl
  have hnamed : (rock [rockName] 0).restored 2 ∈ savedObjects (rockStore [rockName] 1) (rockTable [rockName] 1) :=
    List.mem_of_getElem? (i := 0) rfl
  refine ⟨⟨minerDb_run _, storedFrom_miners _, hheld, fun hrestores => ?_⟩,
    minerDb_run _, storedFrom_miners _, hheld', fun hrestores => ?_⟩
  · have hmem : (rock [default] 0).restored 2 ∈ allHeld (rockStore [default] 1) (miners (rockTable [default] 1)) := by
      rw [allHeld, usersOf_miners, List.flatMap_singleton]
      exact hempty
    exact hrestores.alias_ne (horder _) _ hmem default (List.mem_singleton.mpr rfl) rfl
  · have hk := hheld'.kept (hrestores.alias_ne (horder _))
    obtain ⟨file, hfile, map', s, hload, hsame, -⟩ := hrestores
    have hportable := hsame.portable hk (horder _) hfile hload
    have hname : ((rock [rockName] 0).restored 2).name ∈ ((rock [rockName] 0).restored 2).aliasList :=
      List.mem_singleton.mpr rfl
    have huser := (usersOf_miners (rockTable [rockName] 1)).symm ▸ List.mem_singleton.mpr rfl
    exact hportable.names _ huser _ hnamed hname

end Storage

end NetCosm
