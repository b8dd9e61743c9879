import NetCosm.Objects.World
import NetCosm.Storage.Files
import NetCosm.Table.Filling
import NetCosm.Table.MultimapLookup
import NetCosm.Table.MultimapRefinement

/-!
# Objects on disk

`obj_write` and `obj_read` of `obj.c`, and what the loaders of rooms and of inventories do with an
object they have read: store it under its name, and under each alias.

## The hooks

The data a world module keeps with its objects is written and read by hooks of the object's class.
Nothing is known of them but what `Restores` and `Notices` say of an object: that the hook reads
from the bytes that were written what was there, and that it calls `error` when the file ends
within them, as a hook does that reads with the functions of `util.c`.

## Memory

`ObjStore` are the objects by address, with the counter ids are taken from.  `obj_read` takes an id
from the counter and then overwrites it with the one in the file.

`storeObject` are the two loops that insert an object; they are the same in `room_obj_add` and in
`userdb_init`.  `loads_objects` says what a loop that reads objects and stores them does, at any
place of a file: the store has the objects, each with one reference for every key, and the map has
their keys.
-/

namespace NetCosm

namespace Storage

open Reader

/-- `struct object_t`, with what is written to disk. -/
structure StoredObject (U : Type) extends Object UInt32 where
  id : UInt64
  nAlias : UInt64
  hidden : Bool
  defaultArticle : Bool
  userdata : Option U

/-- The hooks of `struct obj_class_t` that write and read `userdata`. -/
structure ObjHooks (U : Type) where
  hookSerialize : Option (StoredObject U → List UInt8)
  hookDeserialize : Option (StoredObject U → List UInt8 → Except Fault (Option U × List UInt8))

/-- The objects in memory, by address, and `idcounter`. -/
structure ObjStore (U : Type) where
  objects : ℕ → Option (StoredObject U)
  fresh : ℕ
  idcounter : UInt64

section

variable {U : Type}

/-- The store of a process that has just started. -/
def ObjStore.init : ObjStore U where
  objects _ := none
  fresh := 0
  idcounter := 1

/-- Write to the object at an address. -/
def ObjStore.setObject (h : ObjStore U) (addr : ℕ) (obj : StoredObject U) : ObjStore U :=
  { h with objects := Function.update h.objects addr (some obj) }

/-- A new object, for which an id has been taken from the counter. -/
def ObjStore.alloc (h : ObjStore U) (obj : StoredObject U) : ObjStore U where
  objects := Function.update h.objects h.fresh (some obj)
  fresh := h.fresh + 1
  idcounter := h.idcounter + 1

/-- What `hook_serialize` writes; nothing if there is none. -/
def ObjHooks.serialize (c : ObjHooks U) (obj : StoredObject U) : List UInt8 :=
  match c.hookSerialize with
  | some hook => hook obj
  | none => []

/-- What `hook_deserialize` reads; nothing if there is none. -/
def ObjHooks.deserialize (c : ObjHooks U) (obj : StoredObject U) (s : List UInt8) :
    Except Fault (Option U × List UInt8) :=
  match c.hookDeserialize with
  | some hook => hook obj s
  | none => .ok (obj.userdata, s)

/-! ## `obj.c` -/

variable (classes : CString → Option (ObjHooks U))

/-- What `obj_new` allocates; the name is still null. -/
def newObject (className : CString) (id : UInt64) : StoredObject U where
  cls := className
  name := default
  aliasList := []
  refcount := 1
  id := id
  nAlias := 0
  hidden := false
  defaultArticle := true
  userdata := none

/-- `obj_new`: the address and the hooks of the new object. -/
def objNew (className : CString) : StateT (ObjStore U) (Except Fault) (ℕ × ObjHooks U) := fun h =>
  match classes className with
  | some c => .ok ((h.fresh, c), h.alloc (newObject className h.idcounter))
  | none => .error .fatal

/-- What `obj_write` writes before it calls the hook. -/
def fieldBytes (obj : StoredObject U) : List UInt8 :=
  [writeString obj.cls, writeUint64 obj.id, writeString obj.name, writeBool obj.hidden,
    writeBool obj.defaultArticle, obj.aliasList.flatMap writeString ++ writeString default].flatten

/-- What `obj_write` writes of an object with these hooks. -/
def ObjHooks.image (c : ObjHooks U) (obj : StoredObject U) : List UInt8 :=
  fieldBytes obj ++ c.serialize obj

/-- `obj_write`. -/
def objWrite (obj : StoredObject U) : Except Fault (List UInt8) :=
  match classes obj.cls with
  | some c => .ok (c.image obj)
  | none => .error .nullPointer

/-- The loop of `obj_read` over the aliases. -/
def readAliases {σ : Type} : ℕ → List CString → FileReader σ (List CString)
  | 0, _ => fail .endlessLoop
  | n + 1, aliasList => do
      let aliasName ← readString
      if aliasName.bytes = [] then pure aliasList
      else readAliases n (aliasList ++ [aliasName])

/-- `obj_read` up to the hook: the address, the hooks, and the object.  Nothing restores
`n_alias`. -/
def objReadFields : FileReader (ObjStore U) (ℕ × ObjHooks U × StoredObject U) := do
  let className ← readString
  let (addr, c) ← lift (objNew classes className)
  let id ← readUint64
  let name ← readString
  let hidden ← readBool
  let defaultArticle ← readBool
  let aliasList ← withFuel fun n => readAliases n []
  pure (addr, c, { newObject className id with name, hidden, defaultArticle, aliasList })

/-- `obj_read`. -/
def objRead : FileReader (ObjStore U) ℕ := do
  let (addr, c, obj) ← objReadFields classes
  let userdata ← ofFile (c.deserialize obj)
  lift fun h => .ok (addr, h.setObject addr { obj with userdata })

/-- `obj_dup`. -/
def objRef (addr : ℕ) : StateT (ObjStore U) (Except Fault) Unit := fun h =>
  match h.objects addr with
  | some obj => .ok ((), h.setObject addr { obj with refcount := obj.refcount + 1 })
  | none => .error .useAfterFree

end

/-! ## Storing an object -/

/-- The objects of a room or an inventory: keys, and addresses of objects. -/
abbrev ObjTable := Multimap CString ℕ

section

variable {U : Type} (asserts : Bool)

/-- `multimap_insert`. -/
def insertKey (m : ObjTable) (key : CString) (addr : ℕ) :
    StateT (ObjStore U) (Except Fault) ObjTable := fun h =>
  (multimapInsert (roomEnv asserts) m key addr).map fun r => (r.2, h)

/-- The call `multimap_insert(map, alias, obj_dup(obj))`. -/
def insertAlias (addr : ℕ) (m : ObjTable) (aliasName : CString) :
    StateT (ObjStore U) (Except Fault) ObjTable := do
  objRef addr
  insertKey asserts m aliasName addr

/-- What `room_obj_add` and `userdb_init` do with an object: insert it under its name, and under
its aliases. -/
def storeObject (m : ObjTable) (addr : ℕ) : StateT (ObjStore U) (Except Fault) ObjTable := fun h =>
  match h.objects addr with
  | some obj => (do
      let m ← insertKey asserts m obj.name addr
      obj.aliasList.foldlM (insertAlias asserts addr) m) h
  | none => .error .useAfterFree

end

section

variable {U : Type} (classes : CString → Option (ObjHooks U)) (asserts : Bool)

/-- One turn of the loops that read objects. -/
def readObject (m : ObjTable) : FileReader (ObjStore U) ObjTable := do
  let addr ← objRead classes
  lift (storeObject asserts m addr)

end

/-! ## What is known of a hook -/

namespace StoredObject

variable {U : Type}

/-- The object the hook that reads is called with. -/
def unread (o : StoredObject U) : StoredObject U :=
  { o with refcount := 1, nAlias := 0, userdata := none }

/-- The object that is read back, with `n` references. -/
def restored (o : StoredObject U) (n : ℕ) : StoredObject U :=
  { o with refcount := UInt32.ofNat n, nAlias := 0 }

/-- More references to an object that has been read back. -/
theorem restored_add (o : StoredObject U) (n k : ℕ) :
    { o.restored n with refcount := (o.restored n).refcount + UInt32.ofNat k } = o.restored (n + k) := by
  rw [restored, restored, UInt32.ofNat_add]

end StoredObject

/-- One reference, and then `k`. -/
theorem add_one_add_ofNat (n : UInt32) (k : ℕ) : n + 1 + UInt32.ofNat k = n + UInt32.ofNat (k + 1) := by
  rw [add_assoc, add_comm 1, UInt32.ofNat_add]
  rfl

section

variable {U : Type}

/-- The hook reads what was written. -/
def ObjHooks.Restores (c : ObjHooks U) (o : StoredObject U) : Prop :=
  ∀ rest, c.deserialize o.unread (c.serialize o ++ rest) = .ok (o.userdata, rest)

/-- If the file ends within what was written, the hook calls `error`. -/
def ObjHooks.Notices (c : ObjHooks U) (o : StoredObject U) : Prop :=
  ∀ s, s <+: c.serialize o → s ≠ c.serialize o → c.deserialize o.unread s = .error .fatal

/-- An object that can be read back: its class is known, its strings fit in memory, and no alias
is the empty string, which ends the list of the aliases. -/
structure Writable (classes : CString → Option (ObjHooks U)) (o : StoredObject U) : Prop where
  hooks : ∃ c, classes o.cls = some c ∧ c.Restores o ∧ c.Notices o
  cls_fits : Fits o.cls
  name_fits : Fits o.name
  alias_fits : ∀ a ∈ o.aliasList, Fits a
  alias_ne : ∀ a ∈ o.aliasList, a.bytes ≠ []

variable {classes : CString → Option (ObjHooks U)} {o : StoredObject U}

/-! ## Reading an object -/

/-- **The aliases**, and the empty string behind them. -/
theorem reads_readAliases {σ : Type} {P : σ → Prop} {n : ℕ} {l aliasList : List CString}
    (hn : l.length < n) (hfits : ∀ a ∈ l, Fits a) (hne : ∀ a ∈ l, a.bytes ≠ []) :
    Reads P (readAliases n aliasList : FileReader σ (List CString))
      (l.flatMap writeString ++ writeString default) fun a s => a = aliasList ++ l ∧ P s := by
  induction n generalizing l aliasList with
  | zero => exact absurd hn (Nat.not_lt_zero _)
  | succ n ih =>
    cases l with
    | nil =>
      have hempty : Decodes (readString : FileReader σ CString) (writeString default) default
          fun _ => False := decodes_readString fits_default
      rw [List.flatMap_nil, List.nil_append, ← List.append_nil (writeString default),
        List.append_nil aliasList]
      refine Reads.bind (hempty P).reads fun a => ?_
      refine (loads_of_eq (f := fun a : CString => (if a.bytes = [] then pure aliasList
        else readAliases n (aliasList ++ [a]) : FileReader σ (List CString))) ?_ a).reads (A := fun _ => False)
      exact loads_pure fun s hs => ⟨rfl, hs⟩
    | cons b l =>
      have hb : Decodes (readString : FileReader σ CString) (writeString b) b fun _ => False :=
        decodes_readString (hfits b (List.mem_cons_self ..))
      rw [List.flatMap_cons, List.append_assoc]
      refine Reads.bind (hb P).reads fun a => ?_
      rintro rest s ⟨rfl, hP⟩
      rw [if_neg (hne a (List.mem_cons_self ..))]
      have hnext := @ih l (aliasList ++ [a]) (by simpa using hn)
        (fun c hc => hfits c (List.mem_cons_of_mem a hc))
        (fun c hc => hne c (List.mem_cons_of_mem a hc)) rest s hP
      rw [List.append_assoc aliasList] at hnext
      exact hnext

/-- A file that ends within the aliases is noticed. -/
theorem cut_readAliases {σ : Type} {n : ℕ} {l aliasList : List CString} {s : List UInt8} {h : σ}
    (hn : s.length < n) (hfits : ∀ a ∈ l, Fits a) (hne : ∀ a ∈ l, a.bytes ≠ [])
    (hs : s <+: l.flatMap writeString ++ writeString default)
    (hcut : s ≠ l.flatMap writeString ++ writeString default) :
    Sat Stops (on (readAliases n aliasList : FileReader σ (List CString)) s h)
      fun x => False ∧ x.1.2 = [] := by
  induction n generalizing l aliasList s with
  | zero => exact absurd hn (Nat.not_lt_zero _)
  | succ n ih =>
    have hstop : ∀ {b : CString}, Fits b → s <+: writeString b → s ≠ writeString b →
        Sat Stops (on (readAliases (n + 1) aliasList : FileReader σ (List CString)) s h)
          fun x => False ∧ x.1.2 = [] := by
      intro b hb hsb hneb
      have hread : Decodes (readString : FileReader σ CString) (writeString b) b fun _ => False :=
        decodes_readString hb
      rw [readAliases, on_bind]
      exact sat_bind ((hread fun _ => True).cut s hsb hneb h trivial) fun _ hx => hx.1.elim
    cases l with
    | nil =>
      rw [List.flatMap_nil, List.nil_append] at hs hcut
      exact hstop fits_default hs hcut
    | cons b l =>
      have hb := hfits b (List.mem_cons_self ..)
      rw [List.flatMap_cons, List.append_assoc] at hs hcut
      rcases prefix_append_cases hs hcut with ⟨hsb, hneb⟩ | ⟨t, hst, ht, htne⟩
      · exact hstop hb hsb hneb
      · subst hst
        have hread : Decodes (readString : FileReader σ CString) (writeString b) b fun _ => False :=
          decodes_readString hb
        have hlen : t.length < n := by
          rw [List.length_append, writeString, List.length_append, writeSize,
            length_littleEndian] at hn
          omega
        have hnext := @ih l (aliasList ++ [b]) t hlen
          (fun c hc => hfits c (List.mem_cons_of_mem b hc))
          (fun c hc => hne c (List.mem_cons_of_mem b hc)) ht htne
        rw [readAliases, on_bind_of_ok (hread.on_append t h), if_neg (hne b (List.mem_cons_self ..))]
        exact hnext

/-- **The list of the aliases**, however long it is. -/
theorem decodes_aliases {σ : Type} {l : List CString} (hfits : ∀ a ∈ l, Fits a)
    (hne : ∀ a ∈ l, a.bytes ≠ []) :
    Decodes (withFuel (fun n => readAliases n []) : FileReader σ (List CString))
      (l.flatMap writeString ++ writeString default) l fun _ => False := by
  intro P
  refine loads_withFuel (fun n hn => ?_) fun n s hn hs hcut h _ =>
    cut_readAliases hn hfits hne hs hcut
  have hlen : (l.map fun a => (writeString a).length).length ≤ (l.flatMap writeString).length := by
    rw [List.length_flatMap]
    refine List.length_le_sum_of_one_le _ fun i hi => ?_
    obtain ⟨a, -, rfl⟩ := List.mem_map.mp hi
    rw [writeString, List.length_append, writeSize, length_littleEndian]
    omega
  rw [List.length_map] at hlen
  rw [List.length_append] at hn
  exact reads_readAliases (by omega) hfits hne

/-- What `obj_write` writes, if it writes. -/
def objBytes (classes : CString → Option (ObjHooks U)) (o : StoredObject U) : List UInt8 :=
  match classes o.cls with
  | some c => c.image o
  | none => []

theorem objWrite_ok {bs : List UInt8} (h : objWrite classes o = .ok bs) :
    bs = objBytes classes o := by
  unfold objWrite at h
  unfold objBytes
  cases hc : classes o.cls with
  | some c =>
    rw [hc] at h
    exact (Except.ok.inj h).symm
  | none =>
    rw [hc] at h
    exact absurd h (by simp)

/-- The object that was allocated is written to. -/
theorem setObject_alloc (h : ObjStore U) (obj obj' : StoredObject U) :
    (h.alloc obj).setObject h.fresh obj' = h.alloc obj' := by
  rw [ObjStore.setObject, ObjStore.alloc, ObjStore.alloc, Function.update_idem]

/-- A step that does not read, from a state that is known. -/
theorem loads_step {σ α γ : Type} {p : StateT σ (Except Fault) α} {f : α → FileReader σ γ}
    {bs : List UInt8} {Q : γ → σ → Prop} {C : γ → Prop} {h h' : σ} {a : α}
    (hp : p h = .ok (a, h')) (hf : Loads Stops (· = h') (f a) bs Q C) :
    Loads Stops (· = h) (lift p >>= f) bs Q C := by
  have hlift : Loads Stops (· = h) (lift p : FileReader σ α) [] (fun b s => b = a ∧ s = h')
      fun _ => True :=
    loads_lift fun s hs => ⟨a, h', by rw [hs, hp], rfl, rfl⟩
  exact hlift.start fun b => loads_of_eq hf b

/-- **The fields of an object are read back.** -/
theorem loads_objReadFields {c : ObjHooks U} (hc : classes o.cls = some c) (hcls : Fits o.cls)
    (hname : Fits o.name) (halias : ∀ a ∈ o.aliasList, Fits a)
    (hne : ∀ a ∈ o.aliasList, a.bytes ≠ []) (h : ObjStore U) :
    Loads Stops (· = h) (objReadFields classes) (fieldBytes o)
      (fun x h' => x = (h.fresh, c, o.unread) ∧ h' = h.alloc (newObject o.cls h.idcounter))
      fun _ => False := by
  rw [fieldBytes]
  simp only [List.flatten_cons, List.flatten_nil, List.append_nil]
  have hnew : objNew classes o.cls h =
      .ok ((h.fresh, c), h.alloc (newObject o.cls h.idcounter)) := by rw [objNew, hc]
  refine (decodes_readString hcls).andThen (loads_step hnew ?_)
  refine (decodes_readUint64 o.id).andThen ?_
  refine (decodes_readString hname).andThen ?_
  refine (decodes_readBool o.hidden).andThen ?_
  refine (decodes_readBool o.defaultArticle).andThen ?_
  refine Loads.finish (decodes_aliases halias hne _) (fun _ hf => hf.elim) fun aliasList => ?_
  refine loads_of_eq (f := fun aliasList => (pure (h.fresh, c, { newObject o.cls o.id with
    name := o.name, hidden := o.hidden, defaultArticle := o.defaultArticle,
    aliasList := aliasList }) : FileReader (ObjStore U) _)) ?_ aliasList
  exact loads_pure fun s hs => ⟨rfl, hs⟩

/-- What is done behind the fields reads what the hook wrote. -/
theorem reads_hook {c : ObjHooks U} (hr : c.Restores o) (h : ObjStore U) :
    Reads (· = h.alloc (newObject o.cls h.idcounter))
      (ofFile (c.deserialize o.unread) >>= fun userdata =>
        lift fun h' => .ok (h.fresh, h'.setObject h.fresh { o.unread with userdata }) :
        FileReader (ObjStore U) ℕ)
      (c.serialize o) fun addr h' => addr = h.fresh ∧ h' = h.alloc (o.restored 1) := by
  rintro rest s rfl
  refine ⟨h.fresh, h.alloc (o.restored 1), ?_, rfl, rfl⟩
  have hhook : on (ofFile (c.deserialize o.unread) : FileReader (ObjStore U) (Option U))
      (c.serialize o ++ rest) (h.alloc (newObject o.cls h.idcounter)) =
        .ok ((o.userdata, rest), h.alloc (newObject o.cls h.idcounter)) := by
    show (c.deserialize o.unread (c.serialize o ++ rest)).map _ = _
    rw [hr rest]
    rfl
  rw [on_bind_of_ok hhook]
  show Except.ok ((h.fresh, rest), _) = _
  rw [setObject_alloc]
  rfl

/-- **An object is read back** if its class is known, its strings fit in memory, and no alias is
empty. -/
theorem reads_objRead {c : ObjHooks U} (hc : classes o.cls = some c) (hr : c.Restores o)
    (hcls : Fits o.cls) (hname : Fits o.name) (halias : ∀ a ∈ o.aliasList, Fits a)
    (hne : ∀ a ∈ o.aliasList, a.bytes ≠ []) (h : ObjStore U) :
    Reads (· = h) (objRead classes) (c.image o)
      fun addr h' => addr = h.fresh ∧ h' = h.alloc (o.restored 1) := by
  refine Reads.bind (loads_objReadFields hc hcls hname halias hne h).reads fun x => ?_
  rintro rest s ⟨rfl, rfl⟩
  exact reads_hook hr h rest _ rfl

/-- **An object that can be read back is**, and a file that ends within it is noticed. -/
theorem loads_objRead (ho : Writable classes o) (h : ObjStore U) :
    Loads Stops (· = h) (objRead classes) (objBytes classes o)
      (fun addr h' => addr = h.fresh ∧ h' = h.alloc (o.restored 1)) fun _ => False := by
  obtain ⟨c, hc, hrestores, hnotices⟩ := ho.hooks
  have hbytes : objBytes classes o = c.image o := by rw [objBytes, hc]
  rw [hbytes]
  refine ⟨reads_objRead hc hrestores ho.cls_fits ho.name_fits ho.alias_fits ho.alias_ne h, ?_⟩
  refine Cut.bind (loads_objReadFields hc ho.cls_fits ho.name_fits ho.alias_fits ho.alias_ne h)
    (fun _ hf => hf.elim) fun x => ?_
  rintro s hs hne st ⟨rfl, rfl⟩
  refine sat_bind (P := fun _ => False) ?_ fun _ hf => hf.elim
  show Sat Stops ((c.deserialize o.unread s).map _) _
  rw [hnotices s hs hne]
  rfl

/-! ## Storing it -/

variable {asserts : Bool} {m : ObjTable} {n : ℕ}

theorem objRef_of_some {h : ObjStore U} {addr : ℕ} {obj : StoredObject U}
    (hobj : h.objects addr = some obj) :
    objRef addr h = .ok ((), h.setObject addr { obj with refcount := obj.refcount + 1 }) := by
  rw [objRef, hobj]

theorem setObject_setObject (h : ObjStore U) (addr : ℕ) (obj obj' : StoredObject U) :
    (h.setObject addr obj).setObject addr obj' = h.setObject addr obj' := by
  rw [ObjStore.setObject, ObjStore.setObject, ObjStore.setObject, Function.update_idem]

/-- **One key is inserted.** -/
theorem insertKey_of_filling (hm : m.Filling (roomEnv asserts) n) (hn : n + 1 < fillLimit)
    (key : CString) (addr : ℕ) (h : ObjStore U) :
    ∃ m', insertKey asserts m key addr h = .ok (m', h) ∧
      m'.Filling (roomEnv asserts) (n + 1) ∧
      (m'.pairs.map MultimapPair.pair).Perm ((key, addr) :: m.pairs.map MultimapPair.pair) := by
  obtain ⟨r, m', hins, hfill, hperm⟩ := hm.insert (roomEnv_equivalence asserts) hn key addr
  refine ⟨m', ?_, hfill, hperm.map _⟩
  rw [insertKey, hins]
  rfl

/-- The object at an address, with another number of references. -/
theorem insertAliases_of_filling {obj : StoredObject U} {addr : ℕ} (l : List CString)
    (hm : m.Filling (roomEnv asserts) n) (hn : n + l.length < fillLimit) (h : ObjStore U)
    (hobj : h.objects addr = some obj) :
    ∃ m', l.foldlM (insertAlias asserts addr) m h =
        .ok (m', h.setObject addr { obj with refcount := obj.refcount + UInt32.ofNat l.length }) ∧
      m'.Filling (roomEnv asserts) (n + l.length) ∧
      (m'.pairs.map MultimapPair.pair).Perm
        (l.map (·, addr) ++ m.pairs.map MultimapPair.pair) := by
  induction l generalizing m n h obj with
  | nil =>
    refine ⟨m, ?_, hm, List.Perm.refl _⟩
    have hself : h.setObject addr obj = h := by
      rw [ObjStore.setObject, ← hobj, Function.update_eq_self]
    show Except.ok (m, h) = .ok (m, h.setObject addr { obj with refcount := obj.refcount + 0 })
    rw [add_zero, hself]
  | cons a l ih =>
    rw [List.length_cons] at hn
    obtain ⟨m₁, hkey, hfill₁, hperm₁⟩ := insertKey_of_filling hm (by omega) a addr
      (h.setObject addr { obj with refcount := obj.refcount + 1 })
    obtain ⟨m', hrest, hfill, hperm⟩ := ih hfill₁ (by omega)
      (h.setObject addr { obj with refcount := obj.refcount + 1 })
      (Function.update_self addr _ h.objects)
    have hone : insertAlias asserts addr m a h =
        .ok (m₁, h.setObject addr { obj with refcount := obj.refcount + 1 }) := by
      rw [insertAlias, stateT_bind_of_ok (objRef_of_some hobj), hkey]
    refine ⟨m', ?_, ?_, ?_⟩
    · rw [List.foldlM_cons, stateT_bind_of_ok hone, hrest, setObject_setObject,
        List.length_cons, add_one_add_ofNat]
    · rw [List.length_cons, Nat.add_comm l.length, ← Nat.add_assoc]
      exact hfill
    · refine hperm.trans ?_
      rw [List.map_cons, List.cons_append]
      exact (hperm₁.append_left _).trans List.perm_middle

/-- **An object is stored** under its name and its aliases, and has a reference for each. -/
theorem storeObject_of_filling {obj : StoredObject U} {addr : ℕ}
    (hm : m.Filling (roomEnv asserts) n) (hn : n + obj.keys.length < fillLimit) (h : ObjStore U)
    (hobj : h.objects addr = some (obj.restored 1)) :
    ∃ m', storeObject asserts m addr h =
        .ok (m', h.setObject addr (obj.restored obj.keys.length)) ∧
      m'.Filling (roomEnv asserts) (n + obj.keys.length) ∧
      (m'.pairs.map MultimapPair.pair).Perm
        (obj.keys.map (·, addr) ++ m.pairs.map MultimapPair.pair) := by
  have hkeys : obj.keys = obj.name :: obj.aliasList := rfl
  rw [hkeys, List.length_cons] at hn ⊢
  obtain ⟨m₁, hkey, hfill₁, hperm₁⟩ := insertKey_of_filling hm (by omega) obj.name addr h
  obtain ⟨m', hrest, hfill, hperm⟩ := insertAliases_of_filling obj.aliasList hfill₁ (by omega) h
    hobj
  refine ⟨m', ?_, ?_, ?_⟩
  · rw [storeObject, hobj]
    dsimp only
    refine (stateT_bind_of_ok hkey).trans (hrest.trans ?_)
    rw [StoredObject.restored_add, Nat.add_comm]
  · rw [Nat.add_comm obj.aliasList.length, ← Nat.add_assoc]
    exact hfill
  · refine hperm.trans ?_
    rw [List.map_cons, List.cons_append]
    exact (hperm₁.append_left _).trans List.perm_middle

/-! ## Loops over objects -/

/-- The store with objects that have been read and stored one after another. -/
def ObjStore.allocAll (h : ObjStore U) (objs : List (StoredObject U)) : ObjStore U :=
  objs.foldl (fun h o => h.alloc (o.restored o.keys.length)) h

/-- The keys of objects that lie one after another in memory, with their addresses. -/
def keysFrom (addr : ℕ) : List (StoredObject U) → List (CString × ℕ)
  | [] => []
  | o :: objs => o.keys.map (·, addr) ++ keysFrom (addr + 1) objs

theorem keysFrom_append (addr : ℕ) (objs objs' : List (StoredObject U)) :
    keysFrom addr (objs ++ objs') = keysFrom addr objs ++ keysFrom (addr + objs.length) objs' := by
  induction objs generalizing addr with
  | nil => rfl
  | cons o objs ih =>
    rw [List.cons_append, keysFrom, keysFrom, ih, List.append_assoc, List.length_cons,
      Nat.add_right_comm, Nat.add_assoc]

theorem allocAll_append (h : ObjStore U) (objs objs' : List (StoredObject U)) :
    h.allocAll (objs ++ objs') = (h.allocAll objs).allocAll objs' := List.foldl_append

theorem fresh_allocAll (h : ObjStore U) (objs : List (StoredObject U)) :
    (h.allocAll objs).fresh = h.fresh + objs.length := by
  induction objs generalizing h with
  | nil => rfl
  | cons o objs ih =>
    rw [ObjStore.allocAll, List.foldl_cons, ← ObjStore.allocAll, ih, List.length_cons,
      ObjStore.alloc, Nat.add_assoc, Nat.add_comm 1]

/-- The number of keys of some objects. -/
def keyCount (objs : List (StoredObject U)) : ℕ := (objs.map fun o => o.keys.length).sum

theorem keyCount_append (objs objs' : List (StoredObject U)) :
    keyCount (objs ++ objs') = keyCount objs + keyCount objs' := by
  rw [keyCount, List.map_append, List.sum_append, ← keyCount, ← keyCount]

theorem length_le_keyCount (objs : List (StoredObject U)) : objs.length ≤ keyCount objs := by
  have h := List.length_le_sum_of_one_le (objs.map fun o => o.keys.length) fun i hi => by
    obtain ⟨o, -, rfl⟩ := List.mem_map.mp hi
    exact Nat.succ_le_succ (Nat.zero_le o.aliasList.length)
  rwa [List.length_map] at h

/-- What has been stored when the objects `objs` have been read, the first of them at the address
that was free in `h`. -/
structure Shelved (asserts : Bool) (h : ObjStore U) (objs : List (StoredObject U)) (m : ObjTable)
    (h' : ObjStore U) : Prop where
  store : h' = h.allocAll objs
  filling : m.Filling (roomEnv asserts) (keyCount objs)
  pairs : (m.pairs.map MultimapPair.pair).Perm (keysFrom h.fresh objs)

/-- **One more object is read and stored.** -/
theorem loads_readObject (ho : Writable classes o) (h : ObjStore U)
    {objs : List (StoredObject U)} (hn : keyCount (objs ++ [o]) < fillLimit) (m : ObjTable) :
    Loads Stops (Shelved asserts h objs m) (readObject classes asserts m) (objBytes classes o)
      (Shelved asserts h (objs ++ [o])) fun _ => False := by
  have hone : keyCount [o] = o.keys.length := by
    rw [keyCount, List.map_singleton, List.sum_singleton]
  have hall : h.allocAll (objs ++ [o]) = (h.allocAll objs).alloc (o.restored o.keys.length) :=
    allocAll_append h objs [o]
  have hread : Loads Stops (Shelved asserts h objs m) (objRead classes) (objBytes classes o)
      (fun addr h' => addr = (h.allocAll objs).fresh ∧
        h' = (h.allocAll objs).alloc (o.restored 1) ∧ Shelved asserts h objs m (h.allocAll objs))
      fun _ => False := by
    refine ⟨fun rest s hs => ?_, fun s hs hne st _ => (loads_objRead ho st).cut s hs hne st rfl⟩
    obtain ⟨addr, h', hok, haddr, hh'⟩ := (loads_objRead ho s).reads rest s rfl
    obtain rfl := hs.store
    exact ⟨addr, h', hok, haddr, hh', hs⟩
  refine hread.finish (fun _ hf => hf.elim) fun addr => loads_lift ?_
  rintro s ⟨rfl, rfl, hshelved⟩
  rw [keyCount_append, hone] at hn
  obtain ⟨m', hstore, hfill, hperm⟩ := storeObject_of_filling hshelved.filling hn
    ((h.allocAll objs).alloc (o.restored 1)) (Function.update_self _ _ _)
  refine ⟨m', _, hstore, ?_, ?_, ?_⟩
  · rw [hall]
    exact setObject_alloc _ _ _
  · rw [keyCount_append, hone]
    exact hfill
  · have hkeys : keysFrom (h.fresh + objs.length) [o] = o.keys.map (·, h.fresh + objs.length) :=
      List.append_nil _
    rw [keysFrom_append, hkeys]
    rw [fresh_allocAll] at hperm
    exact hperm.trans ((hshelved.pairs.append_left _).trans List.perm_append_comm)

/-- **A loop that reads objects and stores them.** -/
theorem loads_objects {objs : List (StoredObject U)} (hw : ∀ o ∈ objs, Writable classes o)
    (hn : keyCount objs < fillLimit) (h : ObjStore U) {m : ObjTable}
    (hm : m.Filling (roomEnv asserts) 0) (hempty : m.pairs = []) :
    Loads Stops (· = h) (forUnsigned objs.length (fun _ => readObject classes asserts) m)
      (objs.flatMap (objBytes classes)) (Shelved asserts h objs) fun _ => False := by
  have hlen := length_le_keyCount objs
  have hlimit : fillLimit < unsignedRange := by decide
  have hbody : ∀ done o later, objs = done ++ o :: later → ∀ m,
      Loads Stops (Shelved asserts h done m) (readObject classes asserts m) (objBytes classes o)
        (Shelved asserts h (done ++ [o])) fun _ => False := by
    intro done o later hobjs m
    refine loads_readObject (hw o ?_) h ?_ m
    · rw [hobjs]
      exact List.mem_append_right _ (List.mem_cons_self ..)
    · have hle : keyCount (done ++ [o]) ≤ keyCount objs := by
        rw [hobjs, List.append_cons done o later, keyCount_append (done ++ [o]) later]
        exact Nat.le_add_right _ _
      omega
  refine (loads_forUnsigned (by omega) hbody (fun _ _ hf => hf.elim) m).mono (fun s hs => ?_)
    (fun _ _ hs => hs) fun _ hf => hf
  refine ⟨hs, hm, ?_⟩
  rw [hempty]
  exact List.Perm.refl _

end

end Storage

end NetCosm
