import NetCosm.Storage.Objects

/-!
# Which objects are read back as they were written

An object begins as `obj_new` makes it; a world module assigns its name, its flags and its data,
and gives it aliases with `room_obj_add_alias`.  `ObjectOp` are these steps, and `made` is what
they make of a new object.

`obj_write` writes the class, the id, the name, the flags, the aliases and what the hook of the
class writes, and `obj_read` reads all of that.  Two things are lost:

* `n_alias` is not written, and nothing counts the aliases that are read;
* the empty string is accepted as an alias, but it is what ends the list of the aliases in the
  file.

`lost_of_objRead` says so, and `objRead_restores_iff` that nothing else is lost.  Since `n_alias` counts the
aliases, the objects that are read back as they were are those that have no alias.
-/

namespace NetCosm

namespace Storage

open Reader

variable {U : Type}

/-! ## How objects are made -/

/-- What a world module does with an object. -/
inductive ObjectOp (U : Type) where
  | setName (name : CString)
  | setHidden (hidden : Bool)
  | setDefaultArticle (defaultArticle : Bool)
  | setUserdata (userdata : Option U)
  | addAlias (aliasName : CString)

namespace StoredObject

/-- What `room_obj_add_alias` does to an object that is in the room: it rejects the name, and an
alias the object has, and puts any other in front of the list. -/
def addAlias (o : StoredObject U) (aliasName : CString) : StoredObject U :=
  if compareStrings aliasName o.name = 0 then o
  else if o.aliasList.any fun a => compareStringsNocase a aliasName == 0 then o
  else { o with
    aliasList := aliasName :: o.aliasList
    nAlias := o.nAlias + 1
    refcount := o.refcount + 1 }

/-- One step. -/
def step (o : StoredObject U) : ObjectOp U → StoredObject U
  | .setName name => { o with name }
  | .setHidden hidden => { o with hidden }
  | .setDefaultArticle defaultArticle => { o with defaultArticle }
  | .setUserdata userdata => { o with userdata }
  | .addAlias aliasName => o.addAlias aliasName

/-- The object that `obj_new` and the steps `ops` make; the first thing its caller does is to set the name,
which is null until then. -/
def made (className : CString) (id : UInt64) (name : CString) (ops : List (ObjectOp U)) :
    StoredObject U :=
  ops.foldl step ((newObject className id).step (.setName name))

/-- The strings of an object fit in memory. -/
structure InMemory (o : StoredObject U) : Prop where
  cls_fits : Fits o.cls
  name_fits : Fits o.name
  alias_fits : ∀ a ∈ o.aliasList, Fits a

/-- All that is to be the same: the class, the id, the name, the flags, the aliases in their order,
and their number. -/
structure Same (o o' : StoredObject U) : Prop where
  cls : o'.cls = o.cls
  id : o'.id = o.id
  name : o'.name = o.name
  hidden : o'.hidden = o.hidden
  defaultArticle : o'.defaultArticle = o.defaultArticle
  aliasList : o'.aliasList = o.aliasList
  nAlias : o'.nAlias = o.nAlias

/-- **`n_alias` counts the aliases**, whatever is done to an object. -/
theorem nAlias_made (className : CString) (id : UInt64) (name : CString) (ops : List (ObjectOp U)) :
    (made className id name ops).nAlias =
      UInt64.ofNat (made className id name ops).aliasList.length := by
  have hstep : ∀ (o : StoredObject U) (op : ObjectOp U),
      o.nAlias = UInt64.ofNat o.aliasList.length →
        (o.step op).nAlias = UInt64.ofNat (o.step op).aliasList.length := by
    intro o op ho
    cases op with
    | setName | setHidden | setDefaultArticle | setUserdata => exact ho
    | addAlias aliasName =>
      rw [step, addAlias]
      split
      · exact ho
      · split
        · exact ho
        · dsimp only
          rw [ho, List.length_cons, UInt64.ofNat_add]
          rfl
  suffices h : ∀ o : StoredObject U, o.nAlias = UInt64.ofNat o.aliasList.length →
      (ops.foldl step o).nAlias = UInt64.ofNat (ops.foldl step o).aliasList.length from
    h ((newObject className id).step (.setName name)) rfl
  induction ops with
  | nil => exact fun o ho => ho
  | cons op ops ih => exact fun o ho => ih (o.step op) (hstep o op ho)

end StoredObject

/-! ## What is lost -/

/-- A sequence of two readers that has returned. -/
theorem on_bind_eq_ok {σ α γ : Type} {r : FileReader σ α} {f : α → FileReader σ γ}
    {s : List UInt8} {h : σ} {x : (γ × List UInt8) × σ} (hx : on (r >>= f) s h = .ok x) :
    ∃ a s' h', on r s h = .ok ((a, s'), h') ∧ on (f a) s' h' = .ok x := by
  obtain ⟨⟨⟨a, s'⟩, h'⟩, hr, hf⟩ := bind_eq_ok (x := on r s h) hx
  exact ⟨a, s', h', hr, hf⟩

/-- The list of the aliases that are read has no empty string in it. -/
theorem preserves_readAliases {σ : Type} {P : σ → Prop} (n : ℕ) {l : List CString} (hl : ∀ a ∈ l, a.bytes ≠ []) :
    Preserves P (fun l => ∀ a ∈ l, a.bytes ≠ []) (readAliases n l : FileReader σ (List CString)) := by
  induction n generalizing l with
  | zero => exact preserves_fail
  | succ n ih =>
    refine preserves_readString.bind fun b _ => ?_
    split
    · exact preserves_pure hl
    · rename_i hne
      refine ih fun a ha => ?_
      rcases List.mem_append.mp ha with ha | ha
      · exact hl a ha
      · rw [List.mem_singleton.mp ha]
        exact hne

variable {classes : CString → Option (ObjHooks U)}

/-- **What `obj_read` never returns**: an object with a number of aliases, or with an empty one. -/
theorem lost_of_objRead {s rest : List UInt8} {h h' : ObjStore U} {addr : ℕ}
    (hread : on (objRead classes) s h = .ok ((addr, rest), h')) :
    ∃ o, h'.objects addr = some o ∧ o.nAlias = 0 ∧ ∀ a ∈ o.aliasList, a.bytes ≠ [] := by
  obtain ⟨⟨addr', c, obj⟩, _, _, hfields, hread⟩ := on_bind_eq_ok hread
  obtain ⟨userdata, _, _, -, hread⟩ := on_bind_eq_ok hread
  obtain ⟨hr, rfl⟩ := Prod.mk.inj (Except.ok.inj hread)
  obtain ⟨rfl, -⟩ := Prod.mk.inj hr
  obtain ⟨className, _, _, -, hfields⟩ := on_bind_eq_ok hfields
  obtain ⟨⟨_, _⟩, _, _, -, hfields⟩ := on_bind_eq_ok hfields
  obtain ⟨id, _, _, -, hfields⟩ := on_bind_eq_ok hfields
  obtain ⟨name, _, _, -, hfields⟩ := on_bind_eq_ok hfields
  obtain ⟨hidden, _, _, -, hfields⟩ := on_bind_eq_ok hfields
  obtain ⟨defaultArticle, _, _, -, hfields⟩ := on_bind_eq_ok hfields
  obtain ⟨aliasList, _, _, haliases, hfields⟩ := on_bind_eq_ok hfields
  obtain ⟨hx, -⟩ := Prod.mk.inj (Except.ok.inj hfields)
  obtain ⟨-, -, rfl⟩ := Prod.mk.inj (Prod.mk.inj hx).1 |>.imp_right Prod.mk.inj
  have hne : Preserves (fun _ => True) (fun l => ∀ a ∈ l, a.bytes ≠ [])
      (withFuel (fun n => readAliases n []) : FileReader (ObjStore U) (List CString)) :=
    preserves_withFuel fun n => preserves_readAliases n fun _ ha => absurd ha List.not_mem_nil
  exact ⟨_, Function.update_self _ _ _, rfl, (hne.of_ok trivial haliases).1⟩

/-! ## What is restored -/

/-- What `obj_write` writes is read back as the same object, whatever comes behind it, and that is
left where it is. -/
def DecodesBack (classes : CString → Option (ObjHooks U)) (o : StoredObject U) : Prop :=
  ∃ bytes, objWrite classes o = .ok bytes ∧ ∀ later h, ∃ addr h' o',
    on (objRead classes) (bytes ++ later) h = .ok ((addr, later), h') ∧
      h'.objects addr = some o' ∧ o.Same o'

/-- An object that is read back as it was has no number of aliases, and no empty one. -/
theorem lost_of_decodesBack {o : StoredObject U} (h : DecodesBack classes o) :
    o.nAlias = 0 ∧ ∀ a ∈ o.aliasList, a.bytes ≠ [] := by
  obtain ⟨bytes, -, hback⟩ := h
  obtain ⟨addr, h', o', hread, ho', hsame⟩ := hback [] ObjStore.init
  obtain ⟨o'', ho'', hcount, hne⟩ := lost_of_objRead hread
  obtain rfl := Option.some.inj (ho'.symm.trans ho'')
  exact ⟨hsame.nAlias.symm.trans hcount, hsame.aliasList ▸ hne⟩

/-- **Nothing else is lost.** -/
theorem decodesBack_of_none {o : StoredObject U} {c : ObjHooks U} (hc : classes o.cls = some c)
    (hr : c.Restores o) (hmem : o.InMemory) (hcount : o.nAlias = 0)
    (hne : ∀ a ∈ o.aliasList, a.bytes ≠ []) : DecodesBack classes o := by
  refine ⟨c.image o, by rw [objWrite, hc], fun later h => ?_⟩
  obtain ⟨addr, h', hread, rfl, rfl⟩ :=
    reads_objRead hc hr hmem.cls_fits hmem.name_fits hmem.alias_fits hne h later h rfl
  refine ⟨h.fresh, _, o.restored 1, hread, Function.update_self _ _ _, ?_⟩
  exact ⟨rfl, rfl, rfl, rfl, rfl, rfl, hcount.symm⟩

/-- **An object is read back as it was written exactly when it has no alias**; or, to be exact,
when the number of its aliases is `0` as a `size_t`, and none of them is the empty string. -/
theorem objRead_restores_iff (classes : CString → Option (ObjHooks U)) (className : CString)
    (id : UInt64) (name : CString) (ops : List (ObjectOp U)) {c : ObjHooks U}
    (hc : classes (StoredObject.made className id name ops).cls = some c)
    (hr : c.Restores (StoredObject.made className id name ops))
    (hmem : (StoredObject.made className id name ops).InMemory) :
    DecodesBack classes (StoredObject.made className id name ops) ↔
      2 ^ 64 ∣ (StoredObject.made className id name ops).aliasList.length ∧
        ∀ a ∈ (StoredObject.made className id name ops).aliasList, a.bytes ≠ [] := by
  have hcount : (StoredObject.made className id name ops).nAlias = 0 ↔
      2 ^ 64 ∣ (StoredObject.made className id name ops).aliasList.length := by
    rw [StoredObject.nAlias_made, ← UInt64.toNat_inj, UInt64.toNat_ofNat', UInt64.toNat_zero]
    exact Nat.dvd_iff_mod_eq_zero.symm
  rw [← hcount]
  exact ⟨lost_of_decodesBack, fun h => decodesBack_of_none hc hr hmem h.1 h.2⟩

/-! ## An object of a world -/

/-- The hooks `generic_ser` and `generic_deser`: the data of an object is a string, and `generic_ser` relies
on there being one. -/
def genericHooks : ObjHooks CString where
  hookSerialize := some fun obj => obj.userdata.toList.flatMap writeString
  hookDeserialize := some fun _ s =>
    (on (readString : FileReader Unit CString) s ()).map fun x => (some x.1.1, x.1.2)

/-- The class `/generic/notake`. -/
def genericClasses (className : CString) : Option (ObjHooks CString) :=
  if className = .ofChars "/generic/notake".toList then some genericHooks else none

theorem genericHooks_restores {o : StoredObject CString} {text : CString}
    (h : o.userdata = some text) (hfits : Fits text) : genericHooks.Restores o := by
  intro rest
  have hread := (decodes_readString hfits : Decodes (readString : FileReader Unit CString) _ _ _)
  show (on readString ((o.userdata.toList.flatMap writeString) ++ rest) ()).map _ = _
  rw [h, Option.toList_some, List.flatMap_singleton, hread.on_append rest ()]
  rfl

/-- What is done to a boulder that has its name; its aliases are given later. -/
def boulderOps : List (ObjectOp CString) := [.setUserdata (some (.ofChars "It is just a boulder.".toList))]

/-- A boulder. -/
def boulder (aliases : List CString) : StoredObject CString :=
  .made (.ofChars "/generic/notake".toList) 1 (.ofChars "large boulder".toList)
    (boulderOps ++ aliases.map .addAlias)

/-- A boulder without aliases is read back. -/
theorem boulder_restores :
    DecodesBack genericClasses (boulder []) ↔
      2 ^ 64 ∣ (boulder []).aliasList.length ∧ ∀ a ∈ (boulder []).aliasList, a.bytes ≠ [] :=
  objRead_restores_iff genericClasses (.ofChars "/generic/notake".toList) 1
    (.ofChars "large boulder".toList) boulderOps (if_pos rfl) (genericHooks_restores rfl (by decide))
    ⟨by decide, by decide, by decide⟩

/-- A boulder that is also called a rock is read back with no number of aliases. -/
theorem boulder_loses_nAlias :
    ¬ DecodesBack genericClasses (boulder [.ofChars "rock".toList]) :=
  fun h => absurd (lost_of_decodesBack h).1 (by decide)

end Storage

end NetCosm
