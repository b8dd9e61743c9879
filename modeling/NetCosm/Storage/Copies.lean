import NetCosm.Storage.Rebuilding

/-!
# Objects that were read back

An object that is stored under its name and its aliases is written once, because one of its pairs has the
name for a key --- unless one of the aliases is the name.  Then there are two such pairs, and it is written
twice, and becomes two objects.

`KeptObjects` is what is known of a map of objects before it is saved: each object is there once under its
name, and once under each alias.  `sameObjects_iff` is about the map that is made of what was written: it
has the same objects under the same keys if and only if no object has an alias that is its name.

The argument is a count.  `savedAddrs` are the addresses that are written, with repetitions, and there are
as many objects in the map that is read as this list is long (`nodup_of_sameObjects`).  If it has no
repetitions, what is read lies in memory in its order (`keysFrom_eq`).
-/

namespace NetCosm

namespace Storage

variable {U : Type}

/-! ## Pairs by address -/

section Groups

variable {K : Type}

/-- The keys an address is stored under. -/
def keysAt (pairs : List (MultimapPair K ℕ)) (a : ℕ) : List K :=
  (pairs.filter fun p => p.val = a).map MultimapPair.key

/-- **Pairs are sorted by their addresses.** -/
theorem perm_flatMap_filter {pairs : List (MultimapPair K ℕ)} {addrs : List ℕ} (hnodup : addrs.Nodup)
    (hall : ∀ p ∈ pairs, p.val ∈ addrs) :
    pairs.Perm (addrs.flatMap fun a => pairs.filter fun p => p.val = a) := by
  induction addrs generalizing pairs with
  | nil =>
    have hnil : pairs = [] := List.eq_nil_iff_forall_not_mem.mpr fun p hp => List.not_mem_nil (hall p hp)
    rw [hnil]
    rfl
  | cons a addrs ih =>
    obtain ⟨hnew, hnodup⟩ := List.nodup_cons.mp hnodup
    have hrest := @ih (pairs.filter fun p => !decide (p.val = a)) hnodup fun p hp => by
      obtain ⟨hp, hne⟩ := List.mem_filter.mp hp
      rcases List.mem_cons.mp (hall p hp) with heq | hmem
      · rw [heq] at hne
        exact absurd hne (by simp)
      · exact hmem
    have hsame : (addrs.flatMap fun b => (pairs.filter fun p => !decide (p.val = a)).filter fun p => p.val = b) =
        addrs.flatMap fun b => pairs.filter fun p => p.val = b := by
      refine List.flatMap_congr fun b hb => ?_
      rw [List.filter_filter]
      refine List.filter_congr fun p _ => ?_
      have hne : b ≠ a := fun heq => hnew (heq ▸ hb)
      by_cases hp : p.val = b
      · simp [hp, hne]
      · simp [hp]
    rw [hsame] at hrest
    rw [List.flatMap_cons]
    exact (List.filter_append_perm (fun p => decide (p.val = a)) pairs).symm.trans (hrest.append_left _)

/-- The same with the addresses renamed. -/
theorem perm_renamed {pairs : List (MultimapPair K ℕ)} {addrs : List ℕ} (hnodup : addrs.Nodup)
    (hall : ∀ p ∈ pairs, p.val ∈ addrs) (f : ℕ → ℕ) :
    (pairs.map fun p => (p.key, f p.val)).Perm
      (addrs.flatMap fun a => (keysAt pairs a).map fun key => (key, f a)) := by
  refine ((perm_flatMap_filter hnodup hall).map _).trans ?_
  rw [List.map_flatMap]
  refine List.Perm.of_eq (List.flatMap_congr fun a _ => ?_)
  rw [keysAt, List.map_map]
  refine List.map_congr_left fun p hp => ?_
  rw [of_decide_eq_true (List.mem_filter.mp hp).2]
  rfl

end Groups

/-! ## What is kept and what is read -/

/-- Every object of the map is stored once under its name, and once under each of its aliases. -/
structure KeptObjects (h : ObjStore U) (objects : ObjTable) : Prop where
  live : ∀ p ∈ objects.pairs, (h.objects p.val).isSome
  keys : ∀ p ∈ objects.pairs, ∀ o ∈ h.objects p.val, (keysAt objects.pairs p.val).Perm o.keys

/-- The map `objects'`, of objects in `s`, has the same objects under the same keys as the map `objects`, of
objects in `h`: at other addresses, and with other counts of references. -/
def SameObjects (h s : ObjStore U) (objects objects' : ObjTable) : Prop :=
  ∃ f : ℕ → ℕ, (∀ p ∈ objects.pairs, ∀ q ∈ objects.pairs, f p.val = f q.val → p.val = q.val) ∧
    (objects'.pairs.map MultimapPair.pair).Perm (objects.pairs.map fun p => (p.key, f p.val)) ∧
    ∀ p ∈ objects.pairs, ∀ o ∈ h.objects p.val,
      s.objects (f p.val) = some (o.restored (keysAt objects.pairs p.val).length)

/-- The addresses of the objects that are written, in order. -/
def savedAddrs (h : ObjStore U) (objects : ObjTable) : List ℕ :=
  (objects.pairs.filter fun p => (namedObject? h p).isSome).map MultimapPair.val

variable {h s : ObjStore U} {objects objects' : ObjTable}

theorem savedObjects_eq (h : ObjStore U) (objects : ObjTable) :
    savedObjects h objects = (savedAddrs h objects).filterMap h.objects := by
  rw [savedAddrs, List.filterMap_map, List.filterMap_filter, savedObjects]
  refine List.filterMap_congr fun p _ => ?_
  unfold namedObject?
  rw [Function.comp_apply]
  cases h.objects p.val with
  | none => rfl
  | some o =>
    rw [Option.filter_some]
    split <;> rfl

theorem isSome_namedObject?_iff {p : MultimapPair CString ℕ} {o : StoredObject U}
    (ho : h.objects p.val = some o) : (namedObject? h p).isSome ↔ p.key = o.name := by
  rw [namedObject?, ho, Option.filter_some, ← compareStrings_eq_zero_iff]
  split <;> simp_all

/-- **How often an object is written.** -/
theorem KeptObjects.count_savedAddrs (hk : KeptObjects h objects) {p : MultimapPair CString ℕ}
    (hp : p ∈ objects.pairs) {o : StoredObject U} (ho : h.objects p.val = some o) :
    (savedAddrs h objects).count p.val = o.keys.count o.name := by
  rw [← (hk.keys p hp o ho).count_eq o.name, savedAddrs, keysAt, List.count, List.count, List.countP_map,
    List.countP_map, List.countP_filter, List.countP_filter]
  refine List.countP_congr fun q _ => ?_
  simp only [Function.comp_apply, Bool.and_eq_true, beq_iff_eq, decide_eq_true_eq]
  constructor
  · rintro ⟨hval, hnamed⟩
    exact ⟨(isSome_namedObject?_iff (hval ▸ ho)).mp hnamed, hval⟩
  · rintro ⟨hkey, hval⟩
    exact ⟨hval, (isSome_namedObject?_iff (hval ▸ ho)).mpr hkey⟩

/-- Every object is written. -/
theorem KeptObjects.mem_savedAddrs (hk : KeptObjects h objects) {p : MultimapPair CString ℕ}
    (hp : p ∈ objects.pairs) : p.val ∈ savedAddrs h objects := by
  obtain ⟨o, ho⟩ := Option.isSome_iff_exists.mp (hk.live p hp)
  refine List.count_pos_iff.mp ?_
  rw [hk.count_savedAddrs hp ho]
  exact List.count_pos_iff.mpr (List.mem_cons_self ..)

theorem exists_pair_of_mem_savedAddrs {a : ℕ} (ha : a ∈ savedAddrs h objects) :
    ∃ p ∈ objects.pairs, p.val = a := by
  obtain ⟨p, hp, rfl⟩ := List.mem_map.mp ha
  exact ⟨p, (List.mem_filter.mp hp).1, rfl⟩

theorem KeptObjects.live_of_mem (hk : KeptObjects h objects) {a : ℕ} (ha : a ∈ savedAddrs h objects) :
    (h.objects a).isSome := by
  obtain ⟨p, hp, rfl⟩ := exists_pair_of_mem_savedAddrs ha
  exact hk.live p hp

/-- **Every object is written once** if and only if none has an alias that is its name. -/
theorem KeptObjects.nodup_savedAddrs_iff (hk : KeptObjects h objects) :
    (savedAddrs h objects).Nodup ↔ ∀ o ∈ savedObjects h objects, o.name ∉ o.aliasList := by
  have hcount : ∀ o : StoredObject U, o.keys.count o.name = o.aliasList.count o.name + 1 :=
    fun o => List.count_cons_self
  rw [List.nodup_iff_count_le_one, savedObjects_eq]
  constructor
  · intro hle o ho
    obtain ⟨a, ha, hobj⟩ := List.mem_filterMap.mp ho
    obtain ⟨p, hp, rfl⟩ := exists_pair_of_mem_savedAddrs ha
    have hone := hle p.val
    rw [hk.count_savedAddrs hp hobj, hcount] at hone
    exact List.count_eq_zero.mp (by omega)
  · intro halias a
    by_cases ha : a ∈ savedAddrs h objects
    · obtain ⟨p, hp, rfl⟩ := exists_pair_of_mem_savedAddrs ha
      obtain ⟨o, hobj⟩ := Option.isSome_iff_exists.mp (hk.live p hp)
      rw [hk.count_savedAddrs hp hobj, hcount,
        List.count_eq_zero.mpr (halias o (List.mem_filterMap.mpr ⟨_, ha, hobj⟩))]
    · rw [List.count_eq_zero.mpr ha]
      exact Nat.zero_le 1

/-! ## What lies in memory -/

section Memory

variable {addrs : List ℕ}

/-- The objects at some addresses, read one after another, have the keys of those at these addresses. -/
theorem keysFrom_eq (hnodup : addrs.Nodup) (hlive : ∀ a ∈ addrs, (h.objects a).isSome)
    (keys : ℕ → List CString) (hkeys : ∀ a ∈ addrs, ∀ o ∈ h.objects a, (keys a).Perm o.keys) (addr : ℕ) :
    (addrs.flatMap fun a => (keys a).map fun key => (key, addr + addrs.idxOf a)).Perm
      (keysFrom addr (addrs.filterMap h.objects)) := by
  induction addrs generalizing addr with
  | nil => exact List.Perm.refl _
  | cons a addrs ih =>
    obtain ⟨hnew, hnodup⟩ := List.nodup_cons.mp hnodup
    obtain ⟨o, ho⟩ := Option.isSome_iff_exists.mp (hlive a (List.mem_cons_self ..))
    have hrest := ih hnodup (fun b hb => hlive b (List.mem_cons_of_mem a hb))
      (fun b hb => hkeys b (List.mem_cons_of_mem a hb)) (addr + 1)
    have hshift : (addrs.flatMap fun b => (keys b).map fun key => (key, addr + (a :: addrs).idxOf b)) =
        addrs.flatMap fun b => (keys b).map fun key => (key, addr + 1 + addrs.idxOf b) := by
      refine List.flatMap_congr fun b hb => ?_
      have hne : a ≠ b := fun heq => hnew (heq ▸ hb)
      rw [List.idxOf_cons_ne _ hne, Nat.succ_eq_add_one, Nat.add_right_comm, Nat.add_assoc addr]
    rw [List.flatMap_cons, hshift, List.idxOf_cons_self, List.filterMap_cons_some ho, keysFrom]
    exact ((hkeys a (List.mem_cons_self ..) o ho).map _).append hrest

/-- They lie one after another. -/
theorem objects_idxOf (hlive : ∀ a ∈ addrs, (h.objects a).isSome) {addr : ℕ}
    (hholds : Holds s addr (addrs.filterMap h.objects)) {a : ℕ} (ha : a ∈ addrs) {o : StoredObject U}
    (ho : h.objects a = some o) : s.objects (addr + addrs.idxOf a) = some (o.restored o.keys.length) := by
  induction addrs generalizing addr with
  | nil => exact absurd ha List.not_mem_nil
  | cons b addrs ih =>
    obtain ⟨o', ho'⟩ := Option.isSome_iff_exists.mp (hlive b (List.mem_cons_self ..))
    rw [List.filterMap_cons_some ho'] at hholds
    obtain ⟨hobj, hrest⟩ := hholds
    by_cases hab : b = a
    · subst hab
      rw [List.idxOf_cons_self, Nat.add_zero, hobj]
      rw [Option.some.inj (ho.symm.trans ho')]
    · rw [List.idxOf_cons_ne _ hab, Nat.succ_eq_add_one, Nat.add_comm (addrs.idxOf a), ← Nat.add_assoc]
      exact ih (fun c hc => hlive c (List.mem_cons_of_mem b hc)) hrest
        ((List.mem_cons.mp ha).resolve_left (Ne.symm hab))

/-- Every object that is read has a key. -/
theorem toFinset_keysFrom (addr : ℕ) (objs : List (StoredObject U)) :
    ((keysFrom addr objs).map Prod.snd).toFinset = Finset.Ico addr (addr + objs.length) := by
  induction objs generalizing addr with
  | nil => simp [keysFrom]
  | cons o objs ih =>
    have hkeys : (o.keys.map (·, addr)).map Prod.snd = List.replicate o.keys.length addr := by
      rw [List.map_map]
      exact List.map_const' ..
    have hpos : o.keys.length ≠ 0 := Nat.succ_ne_zero o.aliasList.length
    rw [keysFrom, List.map_append, List.toFinset_append, ih, hkeys, List.toFinset_replicate_of_ne_zero hpos]
    ext a
    simp only [Finset.mem_union, Finset.mem_singleton, Finset.mem_Ico, List.length_cons]
    omega

/-- The addresses of the objects that are read. -/
theorem mem_keysFrom {objs : List (StoredObject U)} {addr : ℕ} {x : CString × ℕ}
    (hx : x ∈ keysFrom addr objs) : addr ≤ x.2 ∧ x.2 < addr + objs.length := by
  have hmem : x.2 ∈ ((keysFrom addr objs).map Prod.snd).toFinset :=
    List.mem_toFinset.mpr (List.mem_map_of_mem hx)
  rw [toFinset_keysFrom] at hmem
  exact Finset.mem_Ico.mp hmem

/-- **What lies at an address**: an object, and all its keys lead there. -/
theorem Holds.object {objs : List (StoredObject U)} {addr : ℕ} (hholds : Holds s addr objs) {a : ℕ}
    (ha : addr ≤ a) (hlt : a < addr + objs.length) :
    ∃ o ∈ objs, s.objects a = some (o.restored o.keys.length) ∧
      ((keysFrom addr objs).filter fun x => x.2 = a).map Prod.fst = o.keys := by
  induction objs generalizing addr with
  | nil => exact absurd ha (Nat.not_le.mpr hlt)
  | cons o objs ih =>
    obtain ⟨hobj, hrest⟩ := hholds
    rw [List.length_cons] at hlt
    rw [keysFrom, List.filter_append, List.map_append]
    rcases Nat.eq_or_lt_of_le ha with rfl | hgt
    · refine ⟨o, List.mem_cons_self .., hobj, ?_⟩
      have hall : (o.keys.map (·, addr)).filter (fun x => x.2 = addr) = o.keys.map (·, addr) := by
        refine List.filter_eq_self.mpr fun x hx => ?_
        obtain ⟨key, -, rfl⟩ := List.mem_map.mp hx
        exact decide_eq_true rfl
      have hnone : (keysFrom (addr + 1) objs).filter (fun x => x.2 = addr) = [] := by
        refine List.filter_eq_nil_iff.mpr fun x hx => ?_
        have hle := (mem_keysFrom hx).1
        simp only [decide_eq_true_eq]
        omega
      rw [hall, hnone, List.map_map, List.map_nil, List.append_nil]
      exact List.map_id _
    · have hnone : (o.keys.map (·, addr)).filter (fun x => x.2 = a) = [] := by
        refine List.filter_eq_nil_iff.mpr fun x hx => ?_
        obtain ⟨key, -, rfl⟩ := List.mem_map.mp hx
        simp only [decide_eq_true_eq]
        omega
      obtain ⟨o', ho', hobj', hkeys⟩ := ih hrest hgt (by omega)
      exact ⟨o', List.mem_cons_of_mem o ho', hobj', by rw [hnone, hkeys]; rfl⟩

/-- Every object is found under its name. -/
theorem Holds.exists_name {objs : List (StoredObject U)} {addr : ℕ} (hholds : Holds s addr objs)
    {o : StoredObject U} (ho : o ∈ objs) :
    ∃ a, (o.name, a) ∈ keysFrom addr objs ∧ s.objects a = some (o.restored o.keys.length) := by
  induction objs generalizing addr with
  | nil => exact absurd ho List.not_mem_nil
  | cons b objs ih =>
    rcases List.mem_cons.mp ho with rfl | ho
    · exact ⟨addr, List.mem_append_left _ (List.mem_map_of_mem (List.mem_cons_self ..)), hholds.1⟩
    · obtain ⟨a, ha, hobj⟩ := ih hholds.2 ho
      exact ⟨a, List.mem_append_right _ ha, hobj⟩

/-- The keys that lead to an address are those of the object that lies there. -/
theorem Holds.keysAt {objs : List (StoredObject U)} {addr : ℕ} (hholds : Holds s addr objs)
    {pairs : List (MultimapPair CString ℕ)} (hperm : (pairs.map MultimapPair.pair).Perm (keysFrom addr objs))
    {p : MultimapPair CString ℕ} (hp : p ∈ pairs) :
    ∃ o ∈ objs, s.objects p.val = some (o.restored o.keys.length) ∧ (keysAt pairs p.val).Perm o.keys := by
  obtain ⟨hle, hlt⟩ := mem_keysFrom (hperm.mem_iff.mp (List.mem_map_of_mem hp))
  obtain ⟨o, ho, hobj, hkeys⟩ := hholds.object hle hlt
  refine ⟨o, ho, hobj, ?_⟩
  rw [← hkeys]
  refine List.Perm.trans (List.Perm.of_eq ?_) ((hperm.filter _).map _)
  rw [List.filter_map, List.map_map]
  rfl

/-- **What was read can be saved again**: the objects are stored under their names and their aliases. -/
theorem Holds.keptObjects {objs : List (StoredObject U)} {addr : ℕ} (hholds : Holds s addr objs)
    (hperm : (objects.pairs.map MultimapPair.pair).Perm (keysFrom addr objs)) : KeptObjects s objects := by
  refine ⟨fun p hp => ?_, fun p hp o' ho' => ?_⟩
  · obtain ⟨o, -, hobj, -⟩ := hholds.keysAt hperm hp
    rw [hobj]
    rfl
  · obtain ⟨o, -, hobj, hkeys⟩ := hholds.keysAt hperm hp
    obtain rfl := Option.some.inj (hobj.symm.trans ho')
    exact hkeys

end Memory

/-! ## When the objects are the same -/

section Same

variable {addr : ℕ}

/-- Objects that are the same are as many. -/
theorem KeptObjects.nodup_of_sameObjects (hk : KeptObjects h objects)
    (hperm : (objects'.pairs.map MultimapPair.pair).Perm (keysFrom addr (savedObjects h objects)))
    (hsame : SameObjects h s objects objects') : (savedAddrs h objects).Nodup := by
  obtain ⟨f, -, hpairs, -⟩ := hsame
  have hlen : (savedObjects h objects).length = (savedAddrs h objects).length := by
    rw [savedObjects_eq]
    exact List.filterMap_length_eq_length.mpr fun a ha => hk.live_of_mem ha
  have hset : Finset.Ico addr (addr + (savedObjects h objects).length) ⊆
      (savedAddrs h objects).toFinset.image f := by
    rw [← toFinset_keysFrom]
    intro b hb
    obtain ⟨x, hx, rfl⟩ := List.mem_map.mp (List.mem_toFinset.mp hb)
    obtain ⟨p, hp, rfl⟩ := List.mem_map.mp ((hperm.symm.trans hpairs).mem_iff.mp hx)
    exact Finset.mem_image_of_mem f (List.mem_toFinset.mpr (hk.mem_savedAddrs hp))
  have hcard := (Finset.card_le_card hset).trans Finset.card_image_le
  rw [Nat.card_Ico, Nat.add_sub_cancel_left, hlen, List.card_toFinset] at hcard
  exact List.dedup_eq_self.mp ((List.dedup_sublist (savedAddrs h objects)).eq_of_length_le hcard)

/-- **The same objects are read back if and only if none has an alias that is its name.** -/
theorem KeptObjects.sameObjects_iff (hk : KeptObjects h objects) (hholds : Holds s addr (savedObjects h objects))
    (hperm : (objects'.pairs.map MultimapPair.pair).Perm (keysFrom addr (savedObjects h objects))) :
    SameObjects h s objects objects' ↔ ∀ o ∈ savedObjects h objects, o.name ∉ o.aliasList := by
  rw [← hk.nodup_savedAddrs_iff]
  refine ⟨hk.nodup_of_sameObjects hperm, fun hnodup => ?_⟩
  have hlive : ∀ a ∈ savedAddrs h objects, (h.objects a).isSome := fun a ha => hk.live_of_mem ha
  rw [savedObjects_eq] at hperm hholds
  refine ⟨fun a => addr + (savedAddrs h objects).idxOf a, fun p hp q hq heq => ?_, ?_, fun p hp o ho => ?_⟩
  · exact (List.idxOf_inj (hk.mem_savedAddrs hp)).mp (Nat.add_left_cancel heq)
  · refine hperm.trans ?_
    have hgroups := perm_renamed hnodup (fun p hp => hk.mem_savedAddrs hp) fun a =>
      addr + (savedAddrs h objects).idxOf a
    refine (hgroups.trans ?_).symm
    refine keysFrom_eq hnodup hlive (keysAt objects.pairs) (fun a ha o ho => ?_) addr
    obtain ⟨p, hp, rfl⟩ := exists_pair_of_mem_savedAddrs ha
    exact hk.keys p hp o ho
  · rw [(hk.keys p hp o ho).length_eq]
    exact objects_idxOf hlive hholds (hk.mem_savedAddrs hp) ho

end Same

end Storage

end NetCosm
