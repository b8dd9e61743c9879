import NetCosm.Library.Replays
import NetCosm.Storage.WorldLoading
import NetCosm.Table.Takes

/-!
# What is made of what was saved

`world_load` reads the bytes that `world_save` has written, and makes a world of them.  Here is what it
makes, without the bytes: `rebuildObject`, `rebuildVerb`, `rebuildRoom` and `rebuildWorld` take what was
saved, and do what reading it does.  They have a result exactly where the functions that read return.

What they can fail at is to fill a table: the loops count with an `unsigned`, and a table that has to grow
from a size of `2 ^ 32` does not come to an end of it.
-/

namespace NetCosm

namespace Storage

open Reader

/-! ## Readers -/

section Readers

variable {σ α : Type} {r : FileReader σ α} {bs : List UInt8} {v : α} {A : α → Prop}

theorem Decodes.replays (h : Decodes r bs v A) : Replays r bs (pure v) := by
  intro rest s
  rw [h.on_append]
  rfl

/-- **A loop over the items of a list**, counted by an `unsigned`: with too many it never returns. -/
theorem replays_forUnsigned {ι : Type} {body : ℕ → α → FileReader σ α} {b : ι → List UInt8}
    {step : α → ι → StateT σ Option α} {items : List ι}
    (hbody : ∀ done i later, items = done ++ i :: later → ∀ a,
      Replays (body done.length a) (b i) (step a i)) (a : α) :
    Replays (forUnsigned items.length body a) (items.flatMap b)
      (if items.length < unsignedRange then items.foldlM step a else noResult) := by
  unfold forUnsigned
  split
  · exact replays_turns (fun done i later h a => by
      rw [Nat.zero_add]
      exact hbody done i later h a) a
  · refine replays_noResult (fun s st => ?_) _
    show (on (turns (fun j => body (j % unsignedRange)) (s.length + 1) 0 a >>= fun _ =>
      fail Fault.endlessLoop) s st).toOption = none
    rw [on_bind]
    cases on (turns (fun j => body (j % unsignedRange)) (s.length + 1) 0 a) s st <;> rfl

end Readers

/-! ## Objects -/

section Objects

variable {U : Type} {classes : CString → Option (ObjHooks U)} {asserts : Bool}

/-- An object that can be read back: its class is known and has hooks that are inverse to each other, its
strings fit in memory, and no alias is the empty string. -/
structure Restorable (classes : CString → Option (ObjHooks U)) (o : StoredObject U) : Prop where
  hooks : ∃ c, classes o.cls = some c ∧ c.Restores o
  cls_fits : Fits o.cls
  name_fits : Fits o.name
  alias_fits : ∀ a ∈ o.aliasList, Fits a
  alias_ne : ∀ a ∈ o.aliasList, a.bytes ≠ []

/-- An object is made, and stored under its keys. -/
def rebuildObject (asserts : Bool) (m : ObjTable) (o : StoredObject U) :
    StateT (ObjStore U) Option ObjTable := fun h =>
  (insertPairs (roomEnv asserts) m (o.keys.map (·, h.fresh))).toOption.map fun m' =>
    (m', h.alloc (o.restored o.keys.length))

/-- The aliases are inserted, each with a reference. -/
theorem foldlM_insertAlias {obj : StoredObject U} {addr : ℕ} (l : List CString) (m : ObjTable)
    (h : ObjStore U) (hobj : h.objects addr = some obj) :
    l.foldlM (insertAlias asserts addr) m h =
      (insertPairs (roomEnv asserts) m (l.map (·, addr))).map fun m' =>
        (m', h.setObject addr { obj with refcount := obj.refcount + UInt32.ofNat l.length }) := by
  induction l generalizing m h obj with
  | nil =>
    have hself : h.setObject addr obj = h := by
      rw [ObjStore.setObject, ← hobj, Function.update_eq_self]
    show Except.ok (m, h) = .ok (m, h.setObject addr { obj with refcount := obj.refcount + 0 })
    rw [add_zero, hself]
  | cons a l ih =>
    rw [List.foldlM_cons, List.map_cons, insertPairs, List.foldlM_cons]
    have hone : insertAlias asserts addr m a h = (multimapInsert (roomEnv asserts) m a addr).map
        fun r => (r.2, h.setObject addr { obj with refcount := obj.refcount + 1 }) := by
      rw [insertAlias, stateT_bind_of_ok (objRef_of_some hobj)]
      rfl
    cases hins : multimapInsert (roomEnv asserts) m a addr with
    | error e =>
      rw [hins] at hone
      show (insertAlias asserts addr m a h >>= _) = _
      rw [hone]
      rfl
    | ok r =>
      rw [hins] at hone
      refine (stateT_bind_of_ok hone).trans ((ih r.2 _ (Function.update_self addr _ _)).trans ?_)
      rw [setObject_setObject, List.length_cons, add_one_add_ofNat]
      rfl

/-- **An object is stored** under its name and its aliases. -/
theorem storeObject_eq {o : StoredObject U} {addr : ℕ} {h : ObjStore U} (m : ObjTable)
    (hobj : h.objects addr = some (o.restored 1)) :
    storeObject asserts m addr h =
      (insertPairs (roomEnv asserts) m (o.keys.map (·, addr))).map fun m' =>
        (m', h.setObject addr (o.restored o.keys.length)) := by
  have hkeys : o.keys = o.name :: o.aliasList := rfl
  have hname : insertKey asserts m o.name addr h =
      (multimapInsert (roomEnv asserts) m o.name addr).map fun r => (r.2, h) := rfl
  rw [storeObject, hobj, hkeys, List.map_cons, insertPairs, List.foldlM_cons]
  dsimp only
  show (insertKey asserts m o.name addr h >>= _) = _
  rw [hname]
  cases multimapInsert (roomEnv asserts) m o.name addr with
  | error e => rfl
  | ok r =>
    refine (foldlM_insertAlias o.aliasList r.2 h hobj).trans ?_
    rw [StoredObject.restored_add, List.length_cons, Nat.add_comm o.aliasList.length]
    rfl

/-- **One object is read and stored.** -/
theorem replays_readObject {o : StoredObject U} (ho : Restorable classes o) (m : ObjTable) :
    Replays (readObject classes asserts m) (objBytes classes o) (rebuildObject asserts m o) := by
  obtain ⟨c, hc, hrestores⟩ := ho.hooks
  have hbytes : objBytes classes o = c.image o := by rw [objBytes, hc]
  intro rest h
  obtain ⟨addr, h', hok, rfl, rfl⟩ := reads_objRead hc hrestores ho.cls_fits ho.name_fits
    ho.alias_fits ho.alias_ne h rest h rfl
  rw [readObject, hbytes, on_bind_of_ok hok]
  show ((storeObject asserts m h.fresh _).map _).toOption = _
  rw [storeObject_eq m (Function.update_self _ _ _), setObject_alloc, rebuildObject]
  cases insertPairs (roomEnv asserts) m (o.keys.map (·, h.fresh)) <;> rfl

theorem insertPairs_append {K D : Type} {f : HashEnv K} (m : Multimap K D) (items items' : List (K × D)) :
    insertPairs f m (items ++ items') =
      insertPairs f m items >>= fun m' => insertPairs f m' items' := List.foldlM_append

/-- **Some objects are read and stored**, one after another. -/
theorem foldlM_rebuildObject (objs : List (StoredObject U)) (m : ObjTable) (h : ObjStore U) :
    objs.foldlM (rebuildObject asserts) m h =
      (insertPairs (roomEnv asserts) m (keysFrom h.fresh objs)).toOption.map fun m' =>
        (m', h.allocAll objs) := by
  induction objs generalizing m h with
  | nil => rfl
  | cons o objs ih =>
    rw [List.foldlM_cons, keysFrom, insertPairs_append]
    show (rebuildObject asserts m o h).bind (fun x => objs.foldlM (rebuildObject asserts) x.1 x.2) = _
    rw [rebuildObject]
    cases insertPairs (roomEnv asserts) m (o.keys.map (·, h.fresh)) with
    | error e => rfl
    | ok m' => exact ih m' _

theorem map_fst_keysFrom (addr : ℕ) (objs : List (StoredObject U)) :
    (keysFrom addr objs).map Prod.fst = objs.flatMap fun o => o.keys := by
  induction objs generalizing addr with
  | nil => rfl
  | cons o objs ih =>
    rw [keysFrom, List.map_append, ih, List.map_map, List.flatMap_cons]
    exact congrArg (· ++ _) (List.map_id _)

theorem length_keysFrom (addr : ℕ) (objs : List (StoredObject U)) :
    (keysFrom addr objs).length = keyCount objs := by
  induction objs generalizing addr with
  | nil => rfl
  | cons o objs ih =>
    rw [keysFrom, List.length_append, List.length_map, ih, keyCount, keyCount, List.map_cons, List.sum_cons]

/-- Objects that can be counted, and whose keys a table of the size `sz` takes. -/
def TakesObjects (asserts : Bool) (sz : ℕ) (objs : List (StoredObject U)) : Prop :=
  objs.length < unsignedRange ∧ Takes (roomEnv asserts) sz (objs.flatMap fun o => o.keys)

/-- The loop that reads the objects of a room or of an inventory. -/
def rebuildObjects (asserts : Bool) (sz : ℕ) (objs : List (StoredObject U)) :
    StateT (ObjStore U) Option ObjTable :=
  if objs.length < unsignedRange then objs.foldlM (rebuildObject asserts) (multimapInit sz)
  else noResult

theorem replays_objects {objs : List (StoredObject U)} (hobjs : ∀ o ∈ objs, Restorable classes o)
    (sz : ℕ) :
    Replays (forUnsigned objs.length (fun _ => readObject classes asserts) (multimapInit sz))
      (objs.flatMap (objBytes classes)) (rebuildObjects asserts sz objs) := by
  unfold rebuildObjects
  refine replays_forUnsigned ?_ (multimapInit sz)
  rintro done o later rfl m
  exact replays_readObject (hobjs o (List.mem_append_right done (List.mem_cons_self ..))) m

/-- What the loop leaves: the objects lie one after another, and the map has their keys. -/
structure RebuiltObjects (asserts : Bool) (h : ObjStore U) (objs : List (StoredObject U))
    (m : ObjTable) (h' : ObjStore U) : Prop where
  store : h' = h.allocAll objs
  regular : m.Regular (roomEnv asserts)
  nonempty : ∀ n ∈ m.hashTab.nodes, n.pairs ≠ []
  pairs : (m.pairs.map MultimapPair.pair).Perm (keysFrom h.fresh objs)

/-- **When the loop over objects returns, and what it leaves.** -/
theorem rebuildObjects_spec (sz : ℕ) (objs : List (StoredObject U)) (h : ObjStore U) :
    ((rebuildObjects asserts sz objs h).isSome ↔ TakesObjects asserts sz objs) ∧
      ∀ m h', rebuildObjects asserts sz objs h = some (m, h') →
        RebuiltObjects asserts h objs m h' := by
  have htakes := exists_insertPairs_iff (f := roomEnv asserts) sz (keysFrom h.fresh objs)
  rw [map_fst_keysFrom] at htakes
  unfold rebuildObjects TakesObjects
  split
  case isFalse hlt => exact ⟨iff_of_false Bool.false_ne_true fun hc => hlt hc.1, fun _ _ hr => by cases hr⟩
  rename_i hlt
  rw [foldlM_rebuildObject, ← htakes]
  cases hins : insertPairs (roomEnv asserts) (multimapInit sz) (keysFrom h.fresh objs) with
  | error e =>
    refine ⟨iff_of_false Bool.false_ne_true ?_, fun _ _ hr => by cases hr⟩
    rintro ⟨-, m, hm⟩
    cases hm
  | ok m =>
    refine ⟨iff_of_true rfl ⟨hlt, m, rfl⟩, fun m' h' hr => ?_⟩
    obtain ⟨rfl, rfl⟩ := Prod.mk.inj (Option.some.inj hr)
    obtain ⟨hreg, hne, hperm⟩ := insertPairs_spec (roomEnv_equivalence asserts)
      (regular_init (roomEnv asserts) sz) (by simp [multimapInit, hashInit]) hins
    rw [Multimap.pairs_init, List.map_nil, List.append_nil] at hperm
    exact ⟨rfl, hreg, hne, hperm⟩

end Objects

/-! ## Verbs -/

section Verbs

variable {σ : Type} {asserts : Bool} {verbClasses : CString → Bool}

/-- A verb is put into a table, if there is none of its name. -/
def rebuildVerb (asserts : Bool) (verbs : VerbTable) (v : Verb) : StateT σ Option VerbTable := fun s =>
  (hashInsert (namesEnv asserts) verbs v.name v).toOption.bind fun r =>
    if r.1.isNone then some (r.2, s) else none

/-- **One verb is read.** -/
theorem replays_readVerb {v : Verb} (hknown : verbClasses v.cls = true) (hcls : Fits v.cls)
    (hname : Fits v.name) (verbs : VerbTable) :
    Replays (readVerb verbClasses asserts verbs : FileReader σ VerbTable) (verbWrite v)
      (rebuildVerb asserts verbs v) := by
  have hread : Replays (verbRead verbClasses : FileReader σ Verb) (verbWrite v) (pure v) := by
    refine (decodes_readString hcls).replays.andThen ?_
    rw [if_pos hknown]
    exact (decodes_readString hname).replays.map fun name => (⟨v.cls, name⟩ : Verb)
  intro rest s
  rw [readVerb, on_bind_of_ok (hread.eq_ok rfl rest), rebuildVerb, on_bind]
  cases hashInsert (namesEnv asserts) verbs v.name v with
  | error e => rfl
  | ok r =>
    show (on (if r.1.isNone then pure r.2 else fail .fatal : FileReader σ VerbTable) rest s).toOption =
      (if r.1.isNone then some (r.2, s) else none).map fun x => ((x.1, rest), x.2)
    split <;> rfl

/-- A verb and its name. -/
def Verb.item (v : Verb) : CString × Verb := (v.name, v)

/-- **Some verbs are read**, of which no two have the same name. -/
theorem foldlM_rebuildVerb {verbs : VerbTable} (hverbs : verbs.WellPlaced (namesEnv asserts))
    (vs : List Verb) (hnew : ∀ v ∈ vs, ∀ n ∈ verbs.nodes, v.name ≠ n.key)
    (hdistinct : (vs.map Verb.name).Nodup) (s : σ) :
    vs.foldlM (rebuildVerb asserts) verbs s =
      (insertAll (namesEnv asserts) verbs (vs.map Verb.item)).toOption.map fun t => (t, s) := by
  induction vs generalizing verbs with
  | nil => rfl
  | cons v vs ih =>
    rw [List.map_cons, List.nodup_cons] at hdistinct
    have hnone : hashLookup (namesEnv asserts) verbs v.name = none := by
      cases hl : hashLookup (namesEnv asserts) verbs v.name with
      | none => rfl
      | some d =>
        obtain ⟨n, hn, hs, -⟩ :=
          (hashLookup_eq_some_iff (compatible_namesEnv asserts).equiv hverbs).mp hl
        exact absurd ((namesEnv_same_iff asserts).mp hs)
          (hnew v (List.mem_cons_self ..) n (Buckets.mem_items_iff.mpr ⟨_, hn⟩))
    rw [List.foldlM_cons, List.map_cons, insertAll, List.foldlM_cons]
    show (rebuildVerb asserts verbs v s).bind (fun x => vs.foldlM (rebuildVerb asserts) x.1 x.2) = _
    rw [rebuildVerb, Verb.item]
    cases hins : hashInsert (namesEnv asserts) verbs v.name v with
    | error e => rfl
    | ok r =>
      obtain ⟨hr, hplaced, hperm, -⟩ := wellPlaced_insertNew (compatible_namesEnv asserts).equiv
        hverbs hnone (hins : hashInsert (namesEnv asserts) verbs v.name v = .ok (r.1, r.2))
      show (if r.1.isNone then some (r.2, s) else none).bind _ = _
      rw [hr]
      refine ih hplaced (fun u hu n hn => ?_) hdistinct.2
      rcases List.mem_cons.mp (hperm.mem_iff.mp hn) with rfl | hn
      · intro heq
        have hname : u.name = v.name := heq
        exact hdistinct.1 (hname ▸ List.mem_map_of_mem hu)
      · exact hnew u (List.mem_cons_of_mem v hu) n hn

/-- Verbs that can be counted, and whose names a table of the size `sz` takes. -/
def TakesVerbs (asserts : Bool) (sz : ℕ) (vs : List Verb) : Prop :=
  vs.length < unsignedRange ∧ Takes (namesEnv asserts) sz (vs.map Verb.name)

/-- The loops that read verbs. -/
def rebuildVerbs (asserts : Bool) (sz : ℕ) (vs : List Verb) : StateT σ Option VerbTable :=
  if vs.length < unsignedRange then vs.foldlM (rebuildVerb asserts) (hashInit sz) else noResult

theorem replays_verbs {vs : List Verb}
    (hvs : ∀ v ∈ vs, verbClasses v.cls = true ∧ Fits v.cls ∧ Fits v.name) (sz : ℕ) :
    Replays (forUnsigned vs.length (fun _ => readVerb verbClasses asserts) (hashInit sz) :
        FileReader σ VerbTable)
      (vs.flatMap verbWrite) (rebuildVerbs asserts sz vs) := by
  unfold rebuildVerbs
  refine replays_forUnsigned ?_ (hashInit sz)
  rintro done v later rfl verbs
  obtain ⟨hknown, hcls, hname⟩ := hvs v (List.mem_append_right done (List.mem_cons_self ..))
  exact replays_readVerb hknown hcls hname verbs

/-- The table has the verbs `vs`, each under its name. -/
structure RebuiltVerbs (asserts : Bool) (vs : List Verb) (verbs : VerbTable) : Prop where
  placed : verbs.WellPlaced (namesEnv asserts)
  nodes : verbs.nodes.Perm (vs.map fun v => ⟨v.name, v⟩)
  sane : verbs.Sane

/-- **When the loop over verbs returns, and what it leaves.** -/
theorem rebuildVerbs_spec (sz : ℕ) {vs : List Verb} (hvs : (vs.map Verb.name).Nodup) (s : σ) :
    ((rebuildVerbs asserts sz vs s).isSome ↔ TakesVerbs asserts sz vs) ∧
      ∀ verbs s', rebuildVerbs asserts sz vs s = some (verbs, s') →
        s' = s ∧ RebuiltVerbs asserts vs verbs := by
  have htakes := exists_insertAll_iff (f := namesEnv asserts) sz (vs.map Verb.item)
  have hnames : (vs.map Verb.item).map Prod.fst = vs.map Verb.name := List.map_map
  rw [hnames] at htakes
  unfold rebuildVerbs TakesVerbs
  split
  case isFalse hlt => exact ⟨iff_of_false Bool.false_ne_true fun hc => hlt hc.1, fun _ _ hr => by cases hr⟩
  rename_i hlt
  rw [foldlM_rebuildVerb (wellPlaced_hashInit _ sz) vs (by simp [hashInit]) hvs, ← htakes]
  cases hins : insertAll (namesEnv asserts) (hashInit sz) (vs.map Verb.item) with
  | error e =>
    refine ⟨iff_of_false Bool.false_ne_true ?_, fun _ _ hr => by cases hr⟩
    rintro ⟨-, t, ht⟩
    cases ht
  | ok t =>
    refine ⟨iff_of_true rfl ⟨hlt, t, rfl⟩, fun verbs s' hr => ?_⟩
    obtain ⟨rfl, rfl⟩ := Prod.mk.inj (Option.some.inj hr)
    have hdistinct : (vs.map Verb.item).Pairwise fun x y => ¬ (namesEnv asserts).Same x.1 y.1 := by
      rw [List.pairwise_map]
      refine (List.pairwise_map.mp hvs).imp fun hne hs => hne ?_
      exact (namesEnv_same_iff asserts).mp hs
    obtain ⟨hplaced, hperm, hsane⟩ := insertAll_spec (compatible_namesEnv asserts).equiv
      (wellPlaced_hashInit _ sz) (by simp [hashInit]) hdistinct hins
    rw [hashInit, HashMap.nodes_fresh, List.append_nil, List.map_map] at hperm
    exact ⟨rfl, hplaced, hperm, hsane (sane_fresh _)⟩

end Verbs

/-! ## Rooms -/

section Rooms

variable {U R : Type} {asserts : Bool} {m : WorldModule U R} {h : ObjStore U} {junk : List UInt8}

/-- A table of verbs that can be read back: each verb under its name and counted, its class known, and its
strings in memory. -/
structure RestorableVerbs (asserts : Bool) (verbClasses : CString → Bool) (verbs : VerbTable) : Prop where
  placed : verbs.WellPlaced (namesEnv asserts)
  counted : verbs.nEntries = UInt64.ofNat verbs.stored
  stored_lt : verbs.stored < 2 ^ 64
  name_eq : ∀ n ∈ verbs.nodes, n.key = n.data.name
  restorable : ∀ v ∈ verbsOf verbs, verbClasses v.cls = true ∧ Fits v.cls ∧ Fits v.name

/-- A room that can be read back. -/
structure RestorableRoom (asserts : Bool) (m : WorldModule U R) (h : ObjStore U) (room : Room R) : Prop where
  name_fits : Fits room.name
  desc_fits : Fits room.desc
  adjacent_length : room.adjacent.length = NUM_DIRECTIONS
  objects : ∀ o ∈ savedObjects h room.objects, Restorable m.objClasses o
  objects_lt : (savedObjects h room.objects).length < 2 ^ 64
  verbs : RestorableVerbs asserts m.verbClasses room.verbs
  restores : room.data.Restores room.userdata

theorem StorableVerbs.restorable {verbClasses : CString → Bool} {verbs : VerbTable}
    (h : StorableVerbs asserts verbClasses verbs) : RestorableVerbs asserts verbClasses verbs where
  placed := h.placed
  counted := h.counted
  stored_lt := h.stored_lt.trans (by decide : fillLimit < 2 ^ 64)
  name_eq := h.name_eq
  restorable v hv := ⟨h.known v hv, h.cls_fits v hv, h.name_fits v hv⟩

theorem Writable.restorable {classes : CString → Option (ObjHooks U)} {o : StoredObject U}
    (h : Writable classes o) : Restorable classes o where
  hooks := h.hooks.imp fun _ hc => ⟨hc.1, hc.2.1⟩
  cls_fits := h.cls_fits
  name_fits := h.name_fits
  alias_fits := h.alias_fits
  alias_ne := h.alias_ne

theorem StorableRoom.restorable {room : Room R} (hroom : StorableRoom asserts m h room) :
    RestorableRoom asserts m h room where
  name_fits := hroom.name_fits
  desc_fits := hroom.desc_fits
  adjacent_length := hroom.adjacent_length
  objects o ho := (hroom.objects o ho).restorable
  objects_lt :=
    ((length_le_keyCount _).trans_lt hroom.keyCount_lt).trans (by decide : fillLimit < 2 ^ 64)
  verbs := hroom.verbs.restorable
  restores := hroom.restores

theorem RestorableVerbs.toNat_hashSize {verbClasses : CString → Bool} {verbs : VerbTable}
    (hv : RestorableVerbs asserts verbClasses verbs) : (hashSize verbs).toNat = (verbsOf verbs).length :=
  toNat_hashSize_of_counted hv.counted hv.stored_lt

theorem RestorableVerbs.nodup {verbClasses : CString → Bool} {verbs : VerbTable}
    (hv : RestorableVerbs asserts verbClasses verbs) : ((verbsOf verbs).map Verb.name).Nodup :=
  nodup_verbNames hv.placed hv.name_eq

/-- A room is made, with its objects and its verbs. -/
def rebuildRoom (asserts : Bool) (h : ObjStore U) (world : List (Room R)) (room : Room R) :
    StateT (ObjStore U) Option (List (Room R)) := do
  let objects ← rebuildObjects asserts 8 (savedObjects h room.objects)
  let verbs ← rebuildVerbs asserts 8 (verbsOf room.verbs)
  pure (world ++ [{ room with objects, verbs }])

/-- **A room is read.** -/
theorem replays_readRoom (hjunk : junk.length = 4) {room : Room R} (hroom : RestorableRoom asserts m h room)
    {i : ℕ} (hi : m.rooms[i]? = some room.data) (world : List (Room R)) :
    Replays (readRoom m asserts junk i world) (roomBytes h m room) (rebuildRoom asserts h world room) := by
  have hzeros : (room.adjacent.flatMap writeRoomid).length =
      (List.replicate (4 * NUM_DIRECTIONS) (0 : UInt8)).length := by
    rw [length_flatMap_writeRoomid, hroom.adjacent_length, List.length_replicate]
  have hcount : (UInt64.ofNat (savedObjects h room.objects).length).toNat =
      (savedObjects h room.objects).length := by
    rw [UInt64.toNat_ofNat']
    exact Nat.mod_eq_of_lt hroom.objects_lt
  have hadjacent : roomidsOf NUM_DIRECTIONS (room.adjacent.flatMap writeRoomid) = room.adjacent := by
    rw [← hroom.adjacent_length]
    exact roomidsOf_flatMap room.adjacent
  have hhook : Replays (ofFile room.data.deserialize : FileReader (ObjStore U) (Option R))
      (room.data.serialize room.userdata) (pure room.userdata) := by
    intro rest s
    show ((room.data.deserialize (room.data.serialize room.userdata ++ rest)).map _).toOption = _
    rw [hroom.restores rest]
    rfl
  rw [readRoom, hi, roomBytes]
  simp only [List.flatten_cons, List.flatten_nil, List.append_nil]
  refine (decodes_readRoomid hjunk room.id).replays.andThen ?_
  refine (decodes_readString hroom.name_fits).replays.andThen ?_
  refine (decodes_readString hroom.desc_fits).replays.andThen ?_
  refine (decodes_readOver _ _ hzeros).replays.andThen ?_
  refine (decodes_readSize _).replays.andThen ?_
  rw [hcount]
  refine (replays_objects hroom.objects 8).bind fun objects => ?_
  refine (decodes_readSize _).replays.andThen ?_
  rw [hroom.verbs.toNat_hashSize]
  refine (replays_verbs hroom.verbs.restorable 8).bind fun verbs => ?_
  rw [← List.append_nil (room.data.serialize room.userdata)]
  refine hhook.andThen ?_
  rw [hadjacent]
  exact replays_pure _

/-- The loop that reads the rooms. -/
def rebuildRooms (asserts : Bool) (h : ObjStore U) (rooms : List (Room R)) :
    StateT (ObjStore U) Option (List (Room R)) :=
  if rooms.length < unsignedRange then rooms.foldlM (rebuildRoom asserts h) [] else noResult

theorem replays_rooms (hjunk : junk.length = 4) {rooms : List (Room R)}
    (hrooms : ∀ room ∈ rooms, RestorableRoom asserts m h room) (hdata : rooms.map Room.data = m.rooms) :
    Replays (forUnsigned rooms.length (readRoom m asserts junk) []) (rooms.flatMap (roomBytes h m))
      (rebuildRooms asserts h rooms) := by
  unfold rebuildRooms
  refine replays_forUnsigned ?_ []
  rintro done room later rfl world
  refine replays_readRoom hjunk (hrooms room (List.mem_append_right done (List.mem_cons_self ..))) ?_ world
  rw [← hdata, List.map_append, List.map_cons, List.getElem?_append_right (by rw [List.length_map]),
    List.length_map, Nat.sub_self]
  rfl

/-- Tables that are made with the size `8` take what is in the room. -/
def TakesRoom (asserts : Bool) (h : ObjStore U) (room : Room R) : Prop :=
  TakesObjects asserts 8 (savedObjects h room.objects) ∧ TakesVerbs asserts 8 (verbsOf room.verbs)

/-- `room'` is what is made of `room`: its objects lie one after another in `s`. -/
structure RebuiltRoom (asserts : Bool) (h s : ObjStore U) (room room' : Room R) : Prop where
  same : room' = { room with objects := room'.objects, verbs := room'.verbs }
  verbs : RebuiltVerbs asserts (verbsOf room.verbs) room'.verbs
  regular : room'.objects.Regular (roomEnv asserts)
  objects : ∃ addr, Holds s addr (savedObjects h room.objects) ∧
    (room'.objects.pairs.map MultimapPair.pair).Perm (keysFrom addr (savedObjects h room.objects))

theorem RebuiltRoom.of_objects {s s' : ObjStore U} {room room' : Room R} (hr : RebuiltRoom asserts h s room room')
    (hobj : s'.objects = s.objects) (hfresh : s'.fresh = s.fresh) : RebuiltRoom asserts h s' room room' :=
  let ⟨addr, hholds, hpairs⟩ := hr.objects
  { hr with objects := ⟨addr, hholds.of_objects hobj hfresh, hpairs⟩ }

theorem RebuiltRoom.allocAll {s : ObjStore U} {room room' : Room R} (hr : RebuiltRoom asserts h s room room')
    (objs : List (StoredObject U)) : RebuiltRoom asserts h (s.allocAll objs) room room' :=
  let ⟨addr, hholds, hpairs⟩ := hr.objects
  { hr with objects := ⟨addr, hholds.allocAll objs, hpairs⟩ }

theorem rebuildRoom_eq_some_iff {world : List (Room R)} {room : Room R} {s : ObjStore U}
    {x : List (Room R) × ObjStore U} :
    rebuildRoom asserts h world room s = some x ↔ ∃ objects s₁ verbs s₂,
      rebuildObjects asserts 8 (savedObjects h room.objects) s = some (objects, s₁) ∧
      rebuildVerbs asserts 8 (verbsOf room.verbs) s₁ = some (verbs, s₂) ∧
      (world ++ [{ room with objects, verbs }], s₂) = x := by
  rw [rebuildRoom, stateT_bind_eq_some_iff]
  refine exists_congr fun objects => exists_congr fun s₁ => ?_
  rw [stateT_bind_eq_some_iff]
  constructor
  · rintro ⟨hobjects, verbs, s₂, hverbs, hx⟩
    exact ⟨verbs, s₂, hobjects, hverbs, Option.some.inj hx⟩
  · rintro ⟨verbs, s₂, hobjects, hverbs, hx⟩
    exact ⟨hobjects, verbs, s₂, hverbs, congrArg some hx⟩

/-- **When a room can be made, and what it is.** -/
theorem rebuildRoom_spec {room : Room R} (hverbs : ((verbsOf room.verbs).map Verb.name).Nodup)
    (world : List (Room R)) (s : ObjStore U) :
    ((rebuildRoom asserts h world room s).isSome ↔ TakesRoom asserts h room) ∧
      ∀ world' s', rebuildRoom asserts h world room s = some (world', s') →
        s' = s.allocAll (savedObjects h room.objects) ∧
        ∃ room', world' = world ++ [room'] ∧ RebuiltRoom asserts h s' room room' := by
  obtain ⟨hobj, hobjects⟩ : ((rebuildObjects asserts 8 (savedObjects h room.objects) s).isSome ↔ _) ∧ _ :=
    rebuildObjects_spec 8 (savedObjects h room.objects) s
  refine ⟨⟨fun hsome => ?_, fun ⟨htakes, htakes'⟩ => ?_⟩, fun world' s' hr => ?_⟩
  · obtain ⟨x, hx⟩ := Option.isSome_iff_exists.mp hsome
    obtain ⟨objects, s₁, verbs, s₂, h₁, h₂, -⟩ := rebuildRoom_eq_some_iff.mp hx
    refine ⟨hobj.mp (Option.isSome_iff_exists.mpr ⟨_, h₁⟩), ?_⟩
    exact (rebuildVerbs_spec 8 hverbs s₁).1.mp (Option.isSome_iff_exists.mpr ⟨_, h₂⟩)
  · obtain ⟨⟨objects, s₁⟩, h₁⟩ := Option.isSome_iff_exists.mp (hobj.mpr htakes)
    obtain ⟨⟨verbs, s₂⟩, h₂⟩ := Option.isSome_iff_exists.mp ((rebuildVerbs_spec 8 hverbs s₁).1.mpr htakes')
    exact Option.isSome_iff_exists.mpr
      ⟨_, rebuildRoom_eq_some_iff.mpr ⟨objects, s₁, verbs, s₂, h₁, h₂, rfl⟩⟩
  · obtain ⟨objects, s₁, verbs, s₂, h₁, h₂, hx⟩ := rebuildRoom_eq_some_iff.mp hr
    obtain ⟨rfl, rfl⟩ := Prod.mk.inj hx
    have hmade := hobjects objects s₁ h₁
    obtain ⟨rfl, hverbs'⟩ := (rebuildVerbs_spec 8 hverbs s₁).2 verbs s₂ h₂
    refine ⟨hmade.store, _, rfl, rfl, hverbs', hmade.regular, s.fresh, ?_, hmade.pairs⟩
    rw [hmade.store]
    exact holds_allocAll s _

/-- **When the rooms can be made, and what they are.** -/
theorem foldlM_rebuildRoom {rooms : List (Room R)}
    (hverbs : ∀ room ∈ rooms, ((verbsOf room.verbs).map Verb.name).Nodup)
    (world : List (Room R)) (s : ObjStore U) :
    ((rooms.foldlM (rebuildRoom asserts h) world s).isSome ↔ ∀ room ∈ rooms, TakesRoom asserts h room) ∧
      ∀ world' s', rooms.foldlM (rebuildRoom asserts h) world s = some (world', s') →
        ∃ objs new, s' = s.allocAll objs ∧ world' = world ++ new ∧
          List.Forall₂ (RebuiltRoom asserts h s') rooms new := by
  induction rooms generalizing world s with
  | nil =>
    refine ⟨iff_of_true rfl fun _ hr => absurd hr List.not_mem_nil, fun world' s' hr => ?_⟩
    obtain ⟨rfl, rfl⟩ := Prod.mk.inj (Option.some.inj hr)
    exact ⟨[], [], rfl, (List.append_nil _).symm, List.Forall₂.nil⟩
  | cons room rooms ih =>
    obtain ⟨hroom, hspec⟩ : ((rebuildRoom asserts h world room s).isSome ↔ _) ∧ _ :=
      rebuildRoom_spec (hverbs room (List.mem_cons_self ..)) world s
    have hrest := fun world s => ih (fun r hr => hverbs r (List.mem_cons_of_mem room hr)) world s
    rw [List.foldlM_cons]
    refine ⟨⟨fun hsome => ?_, fun htakes => ?_⟩, fun world' s' hr => ?_⟩
    · obtain ⟨x, hx⟩ := Option.isSome_iff_exists.mp hsome
      obtain ⟨world₁, s₁, h₁, h₂⟩ := stateT_bind_eq_some_iff.mp hx
      refine List.forall_mem_cons.mpr ⟨hroom.mp (Option.isSome_iff_exists.mpr ⟨_, h₁⟩), ?_⟩
      exact (hrest world₁ s₁).1.mp (Option.isSome_iff_exists.mpr ⟨_, h₂⟩)
    · obtain ⟨htake, htakes⟩ := List.forall_mem_cons.mp htakes
      obtain ⟨⟨world₁, s₁⟩, h₁⟩ := Option.isSome_iff_exists.mp (hroom.mpr htake)
      obtain ⟨x, hx⟩ := Option.isSome_iff_exists.mp ((hrest world₁ s₁).1.mpr htakes)
      exact Option.isSome_iff_exists.mpr ⟨x, stateT_bind_eq_some_iff.mpr ⟨world₁, s₁, h₁, hx⟩⟩
    · obtain ⟨world₁, s₁, h₁, h₂⟩ := stateT_bind_eq_some_iff.mp hr
      obtain ⟨rfl, room', rfl, hroom'⟩ := hspec world₁ s₁ h₁
      obtain ⟨objs, new, rfl, rfl, hnew⟩ := (hrest _ _).2 world' s' h₂
      refine ⟨savedObjects h room.objects ++ objs, room' :: new, (allocAll_append ..).symm, ?_,
        List.Forall₂.cons (hroom'.allocAll objs) hnew⟩
      rw [List.append_assoc]
      rfl

/-- **When the loop over the rooms returns, and what it leaves.** -/
theorem rebuildRooms_spec {rooms : List (Room R)}
    (hverbs : ∀ room ∈ rooms, ((verbsOf room.verbs).map Verb.name).Nodup)
    (hlt : rooms.length < unsignedRange) (s : ObjStore U) :
    ((rebuildRooms asserts h rooms s).isSome ↔ ∀ room ∈ rooms, TakesRoom asserts h room) ∧
      ∀ world s', rebuildRooms asserts h rooms s = some (world, s') →
        List.Forall₂ (RebuiltRoom asserts h s') rooms world := by
  obtain ⟨hiff, hspec⟩ : ((rooms.foldlM (rebuildRoom asserts h) [] s).isSome ↔ _) ∧ _ :=
    foldlM_rebuildRoom hverbs [] s
  rw [rebuildRooms, if_pos hlt]
  refine ⟨hiff, fun world s' hr => ?_⟩
  obtain ⟨objs, new, -, rfl, hnew⟩ := hspec world s' hr
  exact hnew

end Rooms

/-! ## The map of the rooms -/

section Entries

variable {σ : Type} {asserts : Bool} {junk : List UInt8}

/-- An entry is put into the map of the rooms. -/
def rebuildEntry (asserts : Bool) (worldMap : HashMap CString ℤ) (entry : CString × Int32) :
    StateT σ Option (HashMap CString ℤ) := fun s =>
  (hashInsert (namesEnv asserts) worldMap entry.1 entry.2.toInt).toOption.map fun r => (r.2, s)

/-- **One entry is read.** -/
theorem replays_readEntry (hjunk : junk.length = 4) {entry : CString × Int32} (hfits : Fits entry.1)
    (worldMap : HashMap CString ℤ) :
    Replays (readEntry asserts junk worldMap : FileReader σ (HashMap CString ℤ)) (entryBytes entry)
      (rebuildEntry asserts worldMap entry) := by
  unfold readEntry
  refine (decodes_readString hfits).replays.andThen ?_
  rw [← List.append_nil (writeRoomid entry.2)]
  refine (decodes_readRoomid hjunk entry.2).replays.andThen ?_
  intro rest s
  rw [on_bind, rebuildEntry]
  cases hashInsert (namesEnv asserts) worldMap entry.1 entry.2.toInt <;> rfl

/-- What is inserted for an entry. -/
def entryItem (entry : CString × Int32) : CString × ℤ := (entry.1, entry.2.toInt)

theorem foldlM_rebuildEntry (entries : List (CString × Int32)) (worldMap : HashMap CString ℤ) (s : σ) :
    entries.foldlM (rebuildEntry asserts) worldMap s =
      (insertAll (namesEnv asserts) worldMap (entries.map entryItem)).toOption.map fun t => (t, s) := by
  induction entries generalizing worldMap with
  | nil => rfl
  | cons entry entries ih =>
    rw [List.foldlM_cons, List.map_cons, insertAll, List.foldlM_cons]
    show (rebuildEntry asserts worldMap entry s).bind
      (fun x => entries.foldlM (rebuildEntry asserts) x.1 x.2) = _
    rw [rebuildEntry, entryItem]
    cases hashInsert (namesEnv asserts) worldMap entry.1 entry.2.toInt with
    | error e => rfl
    | ok r => exact ih r.2

/-- The loop that reads the map of the rooms. -/
def rebuildMap (asserts : Bool) (worldMap : HashMap CString ℤ) (entries : List (CString × Int32)) :
    StateT σ Option (HashMap CString ℤ) :=
  if entries.length < unsignedRange then entries.foldlM (rebuildEntry asserts) worldMap else noResult

theorem replays_entries (hjunk : junk.length = 4) {entries : List (CString × Int32)}
    (hfits : ∀ entry ∈ entries, Fits entry.1) (worldMap : HashMap CString ℤ) :
    Replays (forUnsigned entries.length (fun _ => readEntry asserts junk) worldMap :
        FileReader σ (HashMap CString ℤ))
      (entries.flatMap entryBytes) (rebuildMap asserts worldMap entries) := by
  unfold rebuildMap
  refine replays_forUnsigned ?_ worldMap
  rintro done entry later rfl tab
  exact replays_readEntry hjunk (hfits entry (List.mem_append_right done (List.mem_cons_self ..))) tab

/-- The map has an entry for every room, and is made twice as large. -/
theorem rebuildMap_spec {entries : List (CString × Int32)} (hdistinct : (entries.map Prod.fst).Nodup)
    (hlt : entries.length < unsignedRange) (s : σ) :
    ∃ t, rebuildMap asserts (hashInit (entries.length * 2)) entries s = some (t, s) ∧
      t.WellPlaced (namesEnv asserts) ∧
      t.nodes.Perm ((entries.map entryItem).map fun x => ⟨x.1, x.2⟩) := by
  have hplaced := wellPlaced_hashInit (namesEnv asserts) (D := ℤ) (entries.length * 2)
  have hsz : (hashInit (entries.length * 2) : HashMap CString ℤ).tableSz < 2 ^ 64 := by
    rw [hashInit, HashMap.tableSz_fresh]
    unfold unsignedRange at hlt
    split <;> omega
  have hempty : (hashInit (entries.length * 2) : HashMap CString ℤ).nodes = [] := by
    rw [hashInit, HashMap.nodes_fresh]
  have hroomy : entries.map entryItem ≠ [] →
      4 * ((hashInit (entries.length * 2) : HashMap CString ℤ).stored + (entries.map entryItem).length) <
        3 * (hashInit (entries.length * 2) : HashMap CString ℤ).tableSz := by
    intro hne
    have hpos : entries.length ≠ 0 := fun h0 => hne (by rw [List.length_eq_zero_iff.mp h0, List.map_nil])
    rw [HashMap.stored, hempty, List.length_nil, List.length_map, hashInit, HashMap.tableSz_fresh,
      if_neg (by omega)]
    omega
  have hnew : ∀ x ∈ entries.map entryItem,
      ∀ n ∈ (hashInit (entries.length * 2) : HashMap CString ℤ).nodes, ¬ (namesEnv asserts).Same x.1 n.key := by
    rw [hempty]
    exact fun _ _ n hn => absurd hn List.not_mem_nil
  have hpairwise : (entries.map entryItem).Pairwise fun x y => ¬ (namesEnv asserts).Same x.1 y.1 := by
    rw [List.pairwise_map]
    exact (List.pairwise_map.mp hdistinct).imp fun hne hs => hne ((namesEnv_same_iff asserts).mp hs)
  obtain ⟨t, ht⟩ := exists_insertAll_of_roomy (compatible_namesEnv asserts) hplaced (sane_fresh _) hsz
    hroomy hnew hpairwise
  obtain ⟨htplaced, hperm, -⟩ := insertAll_spec (compatible_namesEnv asserts).equiv hplaced hnew hpairwise ht
  rw [hempty, List.append_nil] at hperm
  refine ⟨t, ?_, htplaced, hperm⟩
  rw [rebuildMap, if_pos hlt, foldlM_rebuildEntry, ht]
  rfl

end Entries

/-! ## Worlds -/

section Worlds

variable {U R : Type} {asserts : Bool} {m : WorldModule U R} {h : ObjStore U} {junk : List UInt8}

/-- A world of the world module `m` that can be read back.  The rooms are numbered, and each has one name. -/
structure RestorableWorld (asserts : Bool) (m : WorldModule U R) (h : ObjStore U) (w : WorldData R) : Prop where
  rooms : ∀ room ∈ w.world, RestorableRoom asserts m h room
  data : w.world.map Room.data = m.rooms
  worldName : w.worldName = m.worldName
  name_fits : Fits w.worldName
  verbs : RestorableVerbs asserts m.verbClasses w.verbMap
  ids : ∀ (i : ℕ) (room : Room R), w.world[i]? = some room → room.id.toInt = i
  map_placed : w.worldMap.WellPlaced (namesEnv asserts)
  map_data : (w.worldMap.nodes.map HashNode.data).Perm ((List.range w.world.length).map Int.ofNat)
  keys_fit : ∀ node ∈ w.worldMap.nodes, Fits node.key

/-- `obj_set_idcounter`. -/
def setIdcounter (idcounter : UInt64) : StateT (ObjStore U) Option Unit := fun h => some ((), { h with idcounter })

/-- What is made of the file up to the map of the rooms. -/
def rebuildHead (asserts : Bool) (h : ObjStore U) (w : WorldData R) :
    StateT (ObjStore U) Option (Option (WorldData R)) := do
  setIdcounter 1
  let verbMap ← rebuildVerbs asserts 32 (verbsOf w.verbMap)
  let world ← rebuildRooms asserts h w.world
  setIdcounter h.idcounter
  pure (some { world, worldName := w.worldName, verbMap, worldMap := hashInit (w.world.length * 2) })

/-- What is made of the map of the rooms. -/
def rebuildTail (asserts : Bool) (w : WorldData R) :
    Option (WorldData R) → StateT (ObjStore U) Option (Option (WorldData R))
  | some w' => do
      let worldMap ← rebuildMap asserts w'.worldMap (entriesOf w)
      pure (some { w' with worldMap })
  | none => pure none

/-- **What `world_load` makes of a world that was saved.** -/
def rebuildWorld (asserts : Bool) (h : ObjStore U) (w : WorldData R) :
    StateT (ObjStore U) Option (Option (WorldData R)) := do
  let w' ← rebuildHead asserts h w
  rebuildTail asserts w w'

variable {w : WorldData R}

/-- As many rooms as there are numbers for. -/
theorem RestorableWorld.length_le (hw : RestorableWorld asserts m h w) : w.world.length ≤ 2 ^ 31 := by
  by_contra hlt
  have hlast : 2 ^ 31 < w.world.length := by omega
  have hid := hw.ids (2 ^ 31) w.world[2 ^ 31] (List.getElem?_eq_getElem hlast)
  have hle := Int32.toInt_lt w.world[2 ^ 31].id
  omega

/-- What is written of an entry is the number it has in the map. -/
theorem RestorableWorld.entryOf_eq (hw : RestorableWorld asserts m h w) {node : HashNode CString ℤ}
    (hnode : node ∈ w.worldMap.nodes) :
    ∃ entry, entryOf w.world node = some entry ∧ entryItem entry = (node.key, node.data) := by
  have hmem : node.data ∈ (List.range w.world.length).map Int.ofNat :=
    hw.map_data.mem_iff.mp (List.mem_map_of_mem hnode)
  obtain ⟨i, hi, hdata⟩ := List.mem_map.mp hmem
  have hlt : i < w.world.length := List.mem_range.mp hi
  have hroom : w.world[i]? = some w.world[i] := List.getElem?_eq_getElem hlt
  have hindex : node.data.toNat = i := by
    rw [← hdata]
    rfl
  refine ⟨(node.key, w.world[i].id), ?_, ?_⟩
  · rw [entryOf, hindex, hroom]
    rfl
  · rw [entryItem, hw.ids i _ hroom, ← hdata]
    rfl

/-- The entries are those of the map. -/
theorem RestorableWorld.entries (hw : RestorableWorld asserts m h w) :
    (entriesOf w).map entryItem = w.worldMap.nodes.map fun node => (node.key, node.data) := by
  have hall : ∀ nodes : List (HashNode CString ℤ), (∀ node ∈ nodes, node ∈ w.worldMap.nodes) →
      (nodes.filterMap (entryOf w.world)).map entryItem = nodes.map fun node => (node.key, node.data) := by
    intro nodes
    induction nodes with
    | nil => exact fun _ => rfl
    | cons node nodes ih =>
      intro hnodes
      obtain ⟨entry, hentry, hitem⟩ := hw.entryOf_eq (hnodes node (List.mem_cons_self ..))
      rw [List.filterMap_cons_some hentry, List.map_cons, List.map_cons, hitem,
        ih fun node' hnode' => hnodes node' (List.mem_cons_of_mem node hnode')]
  exact hall _ fun _ hnode => hnode

theorem RestorableWorld.length_entries (hw : RestorableWorld asserts m h w) :
    (entriesOf w).length = w.world.length := by
  have hlen := congrArg List.length hw.entries
  have hdata := hw.map_data.length_eq
  rw [List.length_map, List.length_map] at hlen hdata
  rw [hlen, hdata, List.length_range]

theorem RestorableWorld.entries_fit (hw : RestorableWorld asserts m h w) :
    ∀ entry ∈ entriesOf w, Fits entry.1 := by
  intro entry hentry
  have hitem : entryItem entry ∈ (entriesOf w).map entryItem := List.mem_map_of_mem hentry
  rw [hw.entries] at hitem
  obtain ⟨node, hnode, heq⟩ := List.mem_map.mp hitem
  have hkey : node.key = entry.1 := congrArg Prod.fst heq
  rw [← hkey]
  exact hw.keys_fit node hnode

theorem replays_setIdcounter (idcounter : UInt64) :
    Replays (lift fun h => .ok ((), { h with idcounter }) : FileReader (ObjStore U) Unit) []
      (setIdcounter idcounter) := fun _ _ => rfl

/-- **The file up to the map of the rooms** is read. -/
theorem replays_worldLoadRooms (hjunk : junk.length = 4) (hw : RestorableWorld asserts m h w) :
    Replays (worldLoadRooms m asserts junk) (headBytes h m w) (rebuildHead asserts h w) := by
  have hlt := hw.length_le
  have hsz : ofLittleEndian (writeSize (UInt64.ofNat w.world.length)) = w.world.length := by
    rw [writeSize, ofLittleEndian_littleEndian (UInt64.toNat_lt _), UInt64.toNat_ofNat']
    exact Nat.mod_eq_of_lt (by omega)
  have hrooms : w.world.length = m.rooms.length := by rw [← hw.data, List.length_map]
  have hname : compareStrings m.worldName w.worldName = 0 := by
    rw [hw.worldName]
    exact compareStrings_eq_zero_iff.mpr rfl
  have hverbs : (if hashSize w.verbMap ≠ 0 then (verbsOf w.verbMap).flatMap verbWrite else []) =
      (verbsOf w.verbMap).flatMap verbWrite := by
    split
    · rfl
    · rename_i hzero
      have hnil := hw.verbs.toNat_hashSize
      rw [not_not.mp hzero, UInt64.toNat_zero] at hnil
      rw [List.length_eq_zero_iff.mp hnil.symm, List.flatMap_nil]
  rw [worldLoadRooms, headBytes, hverbs]
  simp only [List.flatten_cons, List.flatten_nil, List.append_nil]
  refine (decodes_readUint32 _).replays.andThen ?_
  rw [if_neg (not_not.mpr rfl)]
  refine (decodes_readOver _ _ (by rfl)).replays.andThen ?_
  simp only [← hrooms, hsz]
  rw [if_neg (not_not.mpr rfl)]
  refine (decodes_readString hw.name_fits).replays.andThen ?_
  rw [if_neg (not_not.mpr hname)]
  refine (replays_setIdcounter 1).start fun _ => ?_
  refine (decodes_readSize _).replays.andThen ?_
  rw [hw.verbs.toNat_hashSize]
  refine (replays_verbs hw.verbs.restorable 32).bind fun verbMap => ?_
  refine (replays_rooms hjunk hw.rooms hw.data).bind fun world => ?_
  rw [← List.append_nil (writeUint64 h.idcounter)]
  refine (decodes_readUint64 h.idcounter).replays.andThen ?_
  exact (replays_setIdcounter h.idcounter).start fun _ => replays_pure _

/-- Tables that are made with the sizes `32` and `8` take what is in the world. -/
def TakesWorld (asserts : Bool) (h : ObjStore U) (w : WorldData R) : Prop :=
  TakesVerbs asserts 32 (verbsOf w.verbMap) ∧ ∀ room ∈ w.world, TakesRoom asserts h room

/-- `w'` is what is made of `w`, with the objects `s`. -/
structure RebuiltWorld (asserts : Bool) (h : ObjStore U) (w w' : WorldData R) (s : ObjStore U) : Prop where
  world : List.Forall₂ (RebuiltRoom asserts h s) w.world w'.world
  worldName : w'.worldName = w.worldName
  verbMap : RebuiltVerbs asserts (verbsOf w.verbMap) w'.verbMap
  idcounter : s.idcounter = h.idcounter
  map_placed : w'.worldMap.WellPlaced (namesEnv asserts)
  map_nodes : w'.worldMap.nodes.Perm w.worldMap.nodes

theorem rebuildWorld_eq_some_iff {s : ObjStore U} {x : Option (WorldData R) × ObjStore U} :
    rebuildWorld asserts h w s = some x ↔ ∃ verbMap s₁ world s₂ worldMap s₃,
      rebuildVerbs asserts 32 (verbsOf w.verbMap) { s with idcounter := 1 } = some (verbMap, s₁) ∧
      rebuildRooms asserts h w.world s₁ = some (world, s₂) ∧
      rebuildMap asserts (hashInit (w.world.length * 2)) (entriesOf w)
        { s₂ with idcounter := h.idcounter } = some (worldMap, s₃) ∧
      (some ⟨world, w.worldName, verbMap, worldMap⟩, s₃) = x := by
  rw [rebuildWorld, stateT_bind_eq_some_iff]
  simp only [rebuildHead, stateT_bind_eq_some_iff]
  constructor
  · rintro ⟨r, s₃, ⟨_, s', hs', verbMap, s₁, hverbs, world, s₂, hworld, _, s₂', hs₂', hr⟩, hx⟩
    obtain ⟨-, rfl⟩ := Prod.mk.inj (Option.some.inj hs')
    obtain ⟨-, rfl⟩ := Prod.mk.inj (Option.some.inj hs₂')
    obtain ⟨rfl, rfl⟩ := Prod.mk.inj (Option.some.inj hr)
    obtain ⟨worldMap, s₄, hmap, hx⟩ := stateT_bind_eq_some_iff.mp hx
    exact ⟨verbMap, s₁, world, s₂, worldMap, s₄, hverbs, hworld, hmap, Option.some.inj hx⟩
  · rintro ⟨verbMap, s₁, world, s₂, worldMap, s₃, hverbs, hworld, hmap, hx⟩
    refine ⟨_, _, ⟨(), _, rfl, verbMap, s₁, hverbs, world, s₂, hworld, (), _, rfl, rfl⟩, ?_⟩
    exact stateT_bind_eq_some_iff.mpr ⟨worldMap, s₃, hmap, congrArg some hx⟩

/-- The names of the rooms are all different. -/
theorem RestorableWorld.nodup_entries (hw : RestorableWorld asserts m h w) :
    ((entriesOf w).map Prod.fst).Nodup := by
  have hkeys : (entriesOf w).map Prod.fst = w.worldMap.nodes.map HashNode.key := by
    have hfst := congrArg (List.map Prod.fst) hw.entries
    rwa [List.map_map, List.map_map] at hfst
  rw [hkeys, List.Nodup, List.pairwise_map]
  refine (hw.map_placed.distinct_nodes (compatible_namesEnv asserts)).imp ?_
  exact fun hne heq => hne ((namesEnv_same_iff asserts).mpr heq)

/-- **When `world_load` has a world to return, and what it is.** -/
theorem rebuildWorld_spec (hw : RestorableWorld asserts m h w) (s : ObjStore U) :
    ((rebuildWorld asserts h w s).isSome ↔ TakesWorld asserts h w) ∧
      ∀ r s', rebuildWorld asserts h w s = some (r, s') →
        ∃ w', r = some w' ∧ RebuiltWorld asserts h w w' s' := by
  have hlt : w.world.length < unsignedRange := by
    have hle := hw.length_le
    unfold unsignedRange
    omega
  have hmap : ∀ s : ObjStore U, ∃ t, rebuildMap asserts (hashInit (w.world.length * 2)) (entriesOf w) s =
      some (t, s) ∧ t.WellPlaced (namesEnv asserts) ∧ t.nodes.Perm w.worldMap.nodes := by
    intro s
    obtain ⟨t, ht, hplaced, hperm⟩ : ∃ t, rebuildMap asserts (hashInit ((entriesOf w).length * 2))
        (entriesOf w) s = some (t, s) ∧ _ :=
      rebuildMap_spec hw.nodup_entries (by rw [hw.length_entries]; exact hlt) s
    rw [hw.length_entries] at ht
    rw [hw.entries, List.map_map] at hperm
    exact ⟨t, ht, hplaced, hperm.trans (by rw [show _ ∘ _ = id from rfl, List.map_id])⟩
  have hverbs := fun room hroom => (hw.rooms room hroom).verbs.nodup
  obtain ⟨hglobal, hglobals⟩ : ((rebuildVerbs asserts 32 (verbsOf w.verbMap)
      { s with idcounter := 1 }).isSome ↔ _) ∧ _ := rebuildVerbs_spec 32 hw.verbs.nodup _
  refine ⟨⟨fun hsome => ?_, fun ⟨htakes, htakes'⟩ => ?_⟩, fun r s' hr => ?_⟩
  · obtain ⟨x, hx⟩ := Option.isSome_iff_exists.mp hsome
    obtain ⟨verbMap, s₁, world, s₂, worldMap, s₃, h₁, h₂, -⟩ := rebuildWorld_eq_some_iff.mp hx
    refine ⟨hglobal.mp (Option.isSome_iff_exists.mpr ⟨_, h₁⟩), ?_⟩
    exact (rebuildRooms_spec hverbs hlt s₁).1.mp (Option.isSome_iff_exists.mpr ⟨_, h₂⟩)
  · obtain ⟨⟨verbMap, s₁⟩, h₁⟩ := Option.isSome_iff_exists.mp (hglobal.mpr htakes)
    obtain ⟨⟨world, s₂⟩, h₂⟩ := Option.isSome_iff_exists.mp ((rebuildRooms_spec hverbs hlt s₁).1.mpr htakes')
    obtain ⟨t, ht, -⟩ := hmap { s₂ with idcounter := h.idcounter }
    exact Option.isSome_iff_exists.mpr
      ⟨_, rebuildWorld_eq_some_iff.mpr ⟨verbMap, s₁, world, s₂, t, _, h₁, h₂, ht, rfl⟩⟩
  · obtain ⟨verbMap, s₁, world, s₂, worldMap, s₃, h₁, h₂, h₃, hx⟩ := rebuildWorld_eq_some_iff.mp hr
    obtain ⟨rfl, rfl⟩ := Prod.mk.inj hx
    obtain ⟨t, ht, hplaced, hnodes⟩ := hmap { s₂ with idcounter := h.idcounter }
    obtain ⟨rfl, rfl⟩ := Prod.mk.inj (Option.some.inj (ht.symm.trans h₃))
    have hrooms := (rebuildRooms_spec hverbs hlt s₁).2 world s₂ h₂
    refine ⟨_, rfl, ?_, rfl, (hglobals verbMap s₁ h₁).2, rfl, hplaced, hnodes⟩
    exact hrooms.imp fun _ _ hroom => hroom.of_objects rfl rfl

/-- **A world that was saved is read.** -/
theorem replays_worldLoad (hjunk : junk.length = 4) (hw : RestorableWorld asserts m h w) :
    Replays (worldLoad m asserts junk) (worldBytes h m w) (rebuildWorld asserts h w) := by
  refine (replays_worldLoadRooms hjunk hw).bind_of fun s r s' hr => ?_
  have hsome : ∃ w', r = some w' := by
    obtain ⟨-, s₁, -, hr⟩ := stateT_bind_eq_some_iff.mp hr
    obtain ⟨verbMap, s₂, -, hr⟩ := stateT_bind_eq_some_iff.mp hr
    obtain ⟨world, s₃, -, hr⟩ := stateT_bind_eq_some_iff.mp hr
    obtain ⟨-, s₄, -, hr⟩ := stateT_bind_eq_some_iff.mp hr
    exact ⟨_, (Prod.mk.inj (Option.some.inj hr)).1.symm⟩
  obtain ⟨w', rfl⟩ := hsome
  have hlen : (entriesOf w).length = m.rooms.length := by rw [hw.length_entries, ← hw.data, List.length_map]
  rw [worldLoadMap, ← hlen, ← List.append_nil ((entriesOf w).flatMap entryBytes)]
  exact (replays_entries hjunk hw.entries_fit w'.worldMap).bind fun worldMap => replays_pure _

end Worlds

end Storage

end NetCosm
