import NetCosm.Objects.Moves

/-!
# New objects and new aliases

The two ways an object gets more keys: it is created and added to a room, or it is
given an alias.

`room_obj_add_alias` first looks the object's name up in the room, and adds the
object if nothing is found.  `room_obj_add` stores the reference of whoever calls
it, and `room_obj_add_alias` has one to give only if its own caller has: for an
object that is not in the room yet.  `sat_roomObjAddAlias_of_found` and
`sat_roomObjAddAlias_of_held` are the two cases.
-/

namespace NetCosm

open World

variable {asserts : Bool} {T : Fault → Prop} {held : ObjId → ℕ} {w : World ℕ} {m : ObjMap}
  {id : ObjId} {o : Object ℕ} {room : RoomId} {aliasName : CString}

/-- A reference that is held can be given away. -/
theorem held_sub_add (h : 0 < held id) : held - Pi.single id 1 + Pi.single id 1 = held := by
  funext x
  by_cases hx : x = id
  · subst hx
    simp only [Pi.add_apply, Pi.sub_apply, Pi.single_eq_same]
    omega
  · simp [hx]

/-- **A new object** has a fresh id and one reference, its creator's. -/
theorem sat_objNew {classes : List CString} {cls name : CString} {aliasList : List CString}
    (hw : w.InOrder asserts held) (hT : T .fatal) :
    Sat T (objNew classes w cls name aliasList) fun r =>
      r.1 = w.idcounter ∧ r.2.InOrder asserts (held + Pi.single r.1 1) ∧
        r.2.objects r.1 = some ⟨cls, name, aliasList, 1⟩ ∧
        (∀ x, x ≠ r.1 → r.2.objects x = w.objects x) ∧ r.2.maps = w.maps := by
  unfold objNew
  split
  · have hnone := hw.fresh w.idcounter (Nat.le_refl _)
    have hzero := hw.dead w.idcounter hnone
    have hother : ∀ o' x, x ≠ w.idcounter → (w.setObject w.idcounter o').objects x = w.objects x :=
      fun o' x hx => by simp [World.setObject, hx]
    refine sat_ok ⟨rfl, ⟨⟨hw.regular, fun x hx => ?_, fun x ox hox => ?_, fun x hx => ?_⟩,
      fun e he n hn => ?_⟩, by simp [World.setObject], hother _, rfl⟩
    · have hlt : w.idcounter < x := hx
      rw [hother _ x (Nat.ne_of_gt hlt)]
      exact hw.fresh x (Nat.le_of_lt hlt)
    · by_cases hxid : x = w.idcounter
      · subst hxid
        obtain rfl : (⟨cls, name, aliasList, 1⟩ : Object ℕ) = ox := by
          simpa [World.setObject] using hox
        show 1 = w.refs w.idcounter + _ ∧ 0 < 1
        simp only [Pi.add_apply, Pi.single_eq_same]
        omega
      · rw [hother _ x hxid] at hox
        have h := hw.live x ox hox
        show ox.refcount = w.refs x + _ ∧ _
        simpa [hxid] using h
    · have hxid : x ≠ w.idcounter := by
        rintro rfl
        simp [World.setObject] at hx
      rw [hother _ x hxid] at hx
      have h := hw.dead x hx
      show w.refs x + _ = 0
      simpa [hxid] using h
    · exact readable_setObject _ (hw.keys e he n hn)
  · exact hT

/-- The alias is one the object does not have. -/
def AliasNew (o : Object ℕ) (aliasName : CString) : Prop :=
  aliasName ≠ o.name ∧ ∀ a ∈ o.aliasList, compareStringsNocase a aliasName ≠ 0

instance (o : Object ℕ) (aliasName : CString) : Decidable (AliasNew o aliasName) :=
  inferInstanceAs (Decidable (_ ∧ _))

/-- The world in which the object has one alias more, which is stored nowhere yet. -/
def World.withAlias (w : World ℕ) (id : ObjId) (o : Object ℕ) (aliasName : CString) : World ℕ :=
  w.setObject id (some { o with aliasList := aliasName :: o.aliasList })

/-- Writing to the alias list of an object does not touch the books. -/
theorem World.InOrder.withAlias (hw : w.InOrder asserts held) (ho : w.objects id = some o)
    (aliasName : CString) : (w.withAlias id o aliasName).InOrder asserts held :=
  ⟨hw.toBooked.setObject ho (hw.live id o ho).1 (hw.live id o ho).2 fun _ _ => rfl,
    fun e he n hn => readable_setObject _ (hw.keys e he n hn)⟩

theorem objects_withAlias : (w.withAlias id o aliasName).objects id =
    some { o with aliasList := aliasName :: o.aliasList } := by
  simp [World.withAlias, World.setObject]

/-- **Storing an alias**: nothing happens, or the alias is new to the object and is
stored in the room. -/
theorem sat_storeAlias (hw : w.InOrder asserts held) (ho : w.objects id = some o)
    (hm : w.map? (.room room) = some m)
    (hT : AliasNew o aliasName →
      ∀ e, multimapInsert (objEnv asserts) m ⟨aliasName, none⟩ id = .error e → T e) :
    Sat T (storeAlias asserts w room id aliasName) fun r =>
      r.2.InOrder asserts held ∧ (r.2.objects id).isSome = true ∧
        (¬ AliasNew o aliasName ∧ r.2 = w ∨ AliasNew o aliasName ∧
          Acts asserts (.room room) id [.insert ⟨aliasName, none⟩ id]
            (w.withAlias id o aliasName) r.2) := by
  have hlive : (w.objects id).isSome = true := by rw [ho]; rfl
  refine sat_bind (sat_deref ho) ?_
  rintro _ rfl
  by_cases hname : aliasName = o.name
  · rw [if_pos hname]
    exact sat_pure ⟨hw, hlive, Or.inl ⟨fun hnew => hnew.1 hname, rfl⟩⟩
  · rw [if_neg hname]
    by_cases halias : (o.aliasList.any fun a => compareStringsNocase a aliasName == 0) = true
    · rw [if_pos halias]
      refine sat_pure ⟨hw, hlive, Or.inl ⟨fun hnew => ?_, rfl⟩⟩
      obtain ⟨a, ha, heq⟩ := List.any_eq_true.mp halias
      exact hnew.2 a ha (by simpa using heq)
    · rw [if_neg halias]
      have hnew : AliasNew o aliasName := ⟨hname, by simpa using halias⟩
      refine (sat_dupInsert (hw.withAlias ho aliasName) objects_withAlias hm rfl (hT hnew)).mono ?_
      rintro r ⟨hacts, hw', hlive'⟩
      exact ⟨hw', hlive', Or.inr ⟨hnew, hacts⟩⟩

/-- Looking the object's own name up. -/
theorem sat_roomObjGet {name : CString} (hw : w.InOrder asserts held)
    (hm : w.map? (.room room) = some m) {owner : Option ObjId}
    (hkey : w.readable ⟨name, owner⟩ = true) :
    Sat T (roomObjGet asserts w room ⟨name, owner⟩)
      fun l => (multimapLookup (objEnv asserts) m ⟨name, owner⟩).1 = l := by
  rw [roomObjGet, lookupObjs, getMap_eq hm]
  show Sat T (do w.touch _; _) _
  rw [touch_eq (hw.keys.walked hm hkey)]
  exact sat_pure rfl

/-- **`room_obj_add_alias` on an object whose name is found in the room.** -/
theorem sat_roomObjAddAlias_of_found (hw : w.InOrder asserts held) (ho : w.objects id = some o)
    (hm : w.map? (.room room) = some m)
    (hfound : (multimapLookup (objEnv asserts) m ⟨o.name, some id⟩).1 ≠ [])
    (hT : AliasNew o aliasName →
      ∀ e, multimapInsert (objEnv asserts) m ⟨aliasName, none⟩ id = .error e → T e) :
    Sat T (roomObjAddAlias asserts w room id aliasName) fun r =>
      r.2.InOrder asserts held ∧ (r.2.objects id).isSome = true ∧
        (¬ AliasNew o aliasName ∧ r.2 = w ∨ AliasNew o aliasName ∧
          Acts asserts (.room room) id [.insert ⟨aliasName, none⟩ id]
            (w.withAlias id o aliasName) r.2) := by
  refine sat_bind (sat_deref ho) ?_
  rintro _ rfl
  refine sat_bind (sat_roomObjGet hw hm (readable_own ho o.name)) ?_
  rintro _ rfl
  have hempty : (multimapLookup (objEnv asserts) m ⟨o.name, some id⟩).1.isEmpty = false := by
    rw [Bool.eq_false_iff, Ne, List.isEmpty_iff]
    exact hfound
  rw [hempty]
  exact sat_storeAlias hw ho hm hT

/-- **`room_obj_add_alias` on an object that is not in the room**, with a reference of
its caller's to store. -/
theorem sat_roomObjAddAlias_of_held (hw : w.InOrder asserts (held + Pi.single id 1))
    (ho : w.objects id = some o) (hm : w.map? (.room room) = some m)
    (hmissing : (multimapLookup (objEnv asserts) m ⟨o.name, some id⟩).1 = [])
    (hT : ∀ e, Runs.run (multimapStep (objEnv asserts) objCompare) m (insertOps id o.keys) =
      .error e → T e)
    (hT' : AliasNew o aliasName → ∀ e, Runs.run (multimapStep (objEnv asserts) objCompare) m
      (insertOps id o.keys ++ [.insert ⟨aliasName, none⟩ id]) = .error e → T e) :
    Sat T (roomObjAddAlias asserts w room id aliasName) fun r =>
      r.2.InOrder asserts held ∧ (r.2.objects id).isSome = true ∧
        ∃ w₁ o₁, Acts asserts (.room room) id (insertOps id o.keys) w w₁ ∧
          w₁.objects id = some o₁ ∧ (∃ n, o₁ = { o with refcount := n }) ∧
          (¬ AliasNew o aliasName ∧ r.2 = w₁ ∨ AliasNew o aliasName ∧
            Acts asserts (.room room) id [.insert ⟨aliasName, none⟩ id]
              (w₁.withAlias id o₁ aliasName) r.2) := by
  refine sat_bind (sat_deref ho) ?_
  rintro _ rfl
  refine sat_bind (sat_roomObjGet hw hm (readable_own ho o.name)) ?_
  rintro _ rfl
  have hempty : (multimapLookup (objEnv asserts) m ⟨o.name, some id⟩).1.isEmpty = true := by
    rw [List.isEmpty_iff]
    exact hmissing
  rw [hempty, if_pos rfl]
  refine sat_bind (P := fun w₁ => Acts asserts (.room room) id (insertOps id o.keys) w w₁ ∧
    w₁.InOrder asserts held ∧ (w₁.objects id).isSome = true)
    (sat_map (sat_roomObjAdd hw ho hm hT)) ?_
  rintro w₁ ⟨hacts, hw₁, hlive₁⟩
  obtain ⟨n, ho₁⟩ := hacts.same_object ho hlive₁
  obtain ⟨m₀, m₁, hm₀, hm₁, hrun⟩ := hacts.map
  obtain rfl : m₀ = m := Option.some.inj (hm₀.symm.trans hm)
  refine (sat_storeAlias hw₁ ho₁ hm₁ fun hnew e he => hT' hnew e ?_).mono ?_
  · rw [Runs.run_append_ok hrun]
    refine Runs.run_cons_error ?_ []
    rw [multimapStep, he]
    rfl
  · rintro r ⟨hw₂, hlive₂, hcases⟩
    exact ⟨hw₂, hlive₂, w₁, _, hacts, ho₁, ⟨n, rfl⟩, hcases⟩

end NetCosm
