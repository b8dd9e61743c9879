import NetCosm.Storage.WorldFile

/-!
# What is in a file that was saved

`world_save` walks over hash tables and writes as it goes.  If it returns, what it has written is a
sequence of fields: `worldBytes`, and of each room `roomBytes`.  The order of the items of a list is
that of the table, and it is the same for the walk that counts the objects and for the one that
writes them: both take `savedObjects`, the objects of the pairs whose key is the name.
-/

namespace NetCosm

namespace Storage

open Reader

section

variable {U R : Type}

/-! ## Walks -/

/-- A loop over a table that returns has gone through the nodes in order. -/
theorem foldlM_of_hashForEach {K D S : Type} {m : HashMap K D}
    {body : S → HashNode K D → Except Fault S} {s s' : S} (h : hashForEach m body s = .ok s') :
    m.nodes.foldlM body s = .ok s' := by
  rwa [hashForEach_of_lt (tableSz_lt_of_hashForEach h)] at h

/-- A loop whose every turn writes something behind what there is. -/
theorem flatMap_of_foldlM {A B : Type} {body : List B → A → Except Fault (List B)}
    {g : A → List B} {l : List A}
    (hbody : ∀ a ∈ l, ∀ out out', body out a = .ok out' → out' = out ++ g a)
    {out r : List B} (h : l.foldlM body out = .ok r) : r = out ++ l.flatMap g := by
  induction l generalizing out with
  | nil => rw [List.flatMap_nil, List.append_nil]; exact (Except.ok.inj h).symm
  | cons a l ih =>
    rw [List.foldlM_cons] at h
    obtain ⟨out', hone, hrest⟩ := bind_eq_ok h
    rw [ih (fun b hb => hbody b (List.mem_cons_of_mem a hb)) hrest,
      hbody a (List.mem_cons_self ..) _ _ hone, List.flatMap_cons, List.append_assoc]

/-- A loop that writes what `f` returns: it returned for every item. -/
theorem forall_of_foldlM {A B : Type} {f : A → Except Fault (List B)} {g : A → List B}
    {l : List A} (hf : ∀ a ∈ l, ∀ b, f a = .ok b → b = g a) {out r : List B}
    (h : l.foldlM (fun out a => (f a).map (out ++ ·)) out = .ok r) :
    r = out ++ l.flatMap g ∧ ∀ a ∈ l, ∃ b, f a = .ok b := by
  refine ⟨flatMap_of_foldlM (fun a ha out out' hone => ?_) h, ?_⟩
  · obtain ⟨b, hb, rfl⟩ := map_eq_ok hone
    rw [hf a ha b hb]
  · clear hf
    induction l generalizing out with
    | nil => exact fun a ha => absurd ha List.not_mem_nil
    | cons a l ih =>
      rw [List.foldlM_cons] at h
      obtain ⟨out', hone, hrest⟩ := bind_eq_ok h
      obtain ⟨b, hb, -⟩ := map_eq_ok hone
      intro a' ha'
      rcases List.mem_cons.mp ha' with rfl | ha'
      · exact ⟨b, hb⟩
      · exact ih hrest a' ha'

/-- The other way: it returns what every turn has written. -/
theorem foldlM_of_forall {A B : Type} {f : A → Except Fault (List B)} {g : A → List B} {l : List A}
    (hf : ∀ a ∈ l, f a = .ok (g a)) (out : List B) :
    l.foldlM (fun out a => (f a).map (out ++ ·)) out = .ok (out ++ l.flatMap g) := by
  induction l generalizing out with
  | nil => exact congrArg Except.ok (List.append_nil out).symm
  | cons a l ih =>
    rw [List.foldlM_cons, hf a (List.mem_cons_self ..)]
    refine (ih (fun b hb => hf b (List.mem_cons_of_mem a hb)) (out ++ g a)).trans ?_
    rw [List.flatMap_cons, List.append_assoc]

/-- A loop whose turns all return returns. -/
theorem exists_foldlM {A S : Type} {body : S → A → Except Fault S} {l : List A}
    (hbody : ∀ a ∈ l, ∀ s, ∃ s', body s a = .ok s') (s : S) : ∃ s', l.foldlM body s = .ok s' := by
  induction l generalizing s with
  | nil => exact ⟨s, rfl⟩
  | cons a l ih =>
    obtain ⟨s', hs'⟩ := hbody a (List.mem_cons_self ..) s
    rw [List.foldlM_cons, hs']
    exact ih (fun b hb => hbody b (List.mem_cons_of_mem a hb)) s'

/-- A loop over a table whose data are written. -/
theorem flatMap_of_hashForEach {K D : Type} {m : HashMap K D}
    {body : List UInt8 → HashNode K D → Except Fault (List UInt8)} {g : HashNode K D → List UInt8}
    {r : List UInt8} (h : hashForEach m body [] = .ok r)
    (hbody : ∀ out n out', body out n = .ok out' → out' = out ++ g n) : r = m.nodes.flatMap g :=
  (flatMap_of_foldlM (fun n _ out out' => hbody out n out') (foldlM_of_hashForEach h)).trans (List.nil_append _)

/-- A loop over the pairs of a map goes through them in order. -/
theorem foldlM_of_forEachPair {K V S : Type} {m : Multimap K V}
    {body : S → MultimapPair K V → Except Fault S} {s s' : S}
    (h : hashForEach m.hashTab (fun s node => node.pairs.foldlM body s) s = .ok s') :
    m.pairs.foldlM body s = .ok s' := by
  have hnodes : ∀ (ns : List (HashNode K (MultimapNode K V))) (s : S),
      (ns.flatMap HashNode.pairs).foldlM body s =
        ns.foldlM (fun s node => node.pairs.foldlM body s) s := by
    intro ns
    induction ns with
    | nil => intro s; rfl
    | cons n ns ih =>
      intro s
      rw [List.flatMap_cons, List.foldlM_append, List.foldlM_cons]
      exact congrArg (n.pairs.foldlM body s >>= ·) (funext ih)
  exact (hnodes _ s).trans (foldlM_of_hashForEach h)

/-! ## Objects -/

variable (h : ObjStore U)

/-- The object of a pair whose key is its name. -/
def namedObject? (p : MultimapPair CString ℕ) : Option (StoredObject U) :=
  (h.objects p.val).filter fun obj => compareStrings p.key obj.name = 0

/-- The objects a walk over a map takes. -/
def savedObjects (objects : ObjTable) : List (StoredObject U) :=
  objects.pairs.filterMap (namedObject? h)

theorem namedObject_ok {p : MultimapPair CString ℕ} {r : Option (StoredObject U)}
    (hr : namedObject h p = .ok r) : r = namedObject? h p := by
  unfold namedObject at hr
  unfold namedObject?
  cases hobj : h.objects p.val with
  | some obj =>
    rw [hobj] at hr
    rw [Option.filter_some, ← Except.ok.inj hr]
    simp only [decide_eq_true_eq]
  | none =>
    rw [hobj] at hr
    exact absurd hr (by simp)

/-- **The number of the objects** is the length of the list of them. -/
theorem objCountNoalias_ok {objects : ObjTable} {n : UInt64}
    (hn : objCountNoalias h objects = .ok n) :
    n = UInt64.ofNat (savedObjects h objects).length := by
  have hpairs : ∀ (l : List (MultimapPair CString ℕ)) (a b : UInt64),
      l.foldlM (fun n p => do
        let obj ← namedObject h p
        pure (if obj.isSome then n + 1 else n)) a = .ok b →
      b = a + UInt64.ofNat (l.filterMap (namedObject? h)).length := by
    intro l
    induction l with
    | nil =>
      intro a b hab
      rw [← Except.ok.inj hab]
      exact (UInt64.add_zero a).symm
    | cons p l ih =>
      intro a b hab
      rw [List.foldlM_cons] at hab
      obtain ⟨a', hone, hrest⟩ := bind_eq_ok hab
      obtain ⟨obj, hobj, hpure⟩ := bind_eq_ok hone
      rw [ih _ _ hrest, ← Except.ok.inj hpure, namedObject_ok h hobj, List.filterMap_cons]
      cases namedObject? h p with
      | none => rfl
      | some obj =>
        simp only [Option.isSome_some, if_true]
        rw [List.length_cons, UInt64.ofNat_add, UInt64.add_assoc, UInt64.add_comm 1]
        rfl
  exact (hpairs _ _ _ (foldlM_of_forEachPair hn)).trans (UInt64.zero_add _)

/-- **What is written of the objects.** -/
theorem writeObjects_ok {classes : CString → Option (ObjHooks U)} {objects : ObjTable}
    {out : List UInt8} (hout : writeObjects h classes objects = .ok out) :
    out = (savedObjects h objects).flatMap (objBytes classes) := by
  have hall : out = [] ++ objects.pairs.flatMap fun p =>
      (namedObject? h p).toList.flatMap (objBytes classes) := by
    refine flatMap_of_foldlM (fun p _ out out' hone => ?_) (foldlM_of_forEachPair hout)
    obtain ⟨obj, hobj, hwrite⟩ := bind_eq_ok hone
    rw [← namedObject_ok h hobj]
    cases obj with
    | none => rw [← Except.ok.inj hwrite]; exact (List.append_nil out).symm
    | some obj =>
      obtain ⟨bytes, hbytes, rfl⟩ := map_eq_ok hwrite
      rw [objWrite_ok hbytes, Option.toList_some, List.flatMap_singleton]
  rw [hall, List.nil_append, ← List.flatMap_assoc, savedObjects, List.filterMap_eq_flatMap_toList]

/-! ## Verbs -/

/-- The verbs of a map. -/
def verbsOf (verbs : VerbTable) : List Verb := verbs.nodes.map HashNode.data

theorem writeVerbs_ok {verbs : VerbTable} {out : List UInt8} (hout : writeVerbs verbs = .ok out) :
    out = (verbsOf verbs).flatMap verbWrite := by
  rw [flatMap_of_hashForEach hout fun _ _ _ hone => (Except.ok.inj hone).symm, verbsOf,
    List.flatMap_map]

/-! ## Rooms and worlds -/

variable (m : WorldModule U R)

/-- What is written of a room. -/
def roomBytes (room : Room R) : List UInt8 :=
  [writeRoomid room.id, writeString room.name, writeString room.desc,
    room.adjacent.flatMap writeRoomid,
    writeSize (UInt64.ofNat (savedObjects h room.objects).length),
    (savedObjects h room.objects).flatMap (objBytes m.objClasses),
    writeSize (hashSize room.verbs), (verbsOf room.verbs).flatMap verbWrite,
    room.data.serialize room.userdata].flatten

theorem saveRoom_ok {room : Room R} {out : List UInt8} (hout : saveRoom m h room = .ok out) :
    out = roomBytes h m room := by
  obtain ⟨n, hn, hout⟩ := bind_eq_ok hout
  obtain ⟨objects, hobjects, hout⟩ := bind_eq_ok hout
  obtain ⟨verbs, hverbs, hout⟩ := bind_eq_ok hout
  rw [← Except.ok.inj hout, objCountNoalias_ok h hn, writeObjects_ok h hobjects,
    writeVerbs_ok hverbs, roomBytes]

/-- An entry of the map of rooms: a name, and the id of the room it points to. -/
def entryOf (world : List (Room R)) (node : HashNode CString ℤ) : Option (CString × Int32) :=
  world[node.data.toNat]?.map fun room => (node.key, room.id)

/-- The entries of the map of rooms. -/
def entriesOf (w : WorldData R) : List (CString × Int32) :=
  w.worldMap.nodes.filterMap (entryOf w.world)

/-- What is written of an entry. -/
def entryBytes (entry : CString × Int32) : List UInt8 :=
  writeString entry.1 ++ writeRoomid entry.2

/-- What is in the file in front of the map of rooms. -/
def headBytes (w : WorldData R) : List UInt8 :=
  [writeUint32 WORLD_MAGIC, writeSize (UInt64.ofNat w.world.length), writeString w.worldName,
    writeSize (hashSize w.verbMap),
    if hashSize w.verbMap ≠ 0 then (verbsOf w.verbMap).flatMap verbWrite else [],
    w.world.flatMap (roomBytes h m), writeUint64 h.idcounter].flatten

/-- What is in the file. -/
def worldBytes (w : WorldData R) : List UInt8 := headBytes h m w ++ (entriesOf w).flatMap entryBytes

theorem saveEntry_ok {world : List (Room R)} {node : HashNode CString ℤ} {out : List UInt8}
    (hout : saveEntry world node = .ok out) :
    ∃ entry, entryOf world node = some entry ∧ out = entryBytes entry := by
  unfold saveEntry at hout
  split at hout
  · exact absurd hout (by simp)
  · unfold entryOf
    cases hroom : world[node.data.toNat]? with
    | none =>
      rw [hroom] at hout
      exact absurd hout (by simp)
    | some room =>
      rw [hroom] at hout
      exact ⟨(node.key, room.id), rfl, (Except.ok.inj hout).symm⟩

/-- **A world that is saved is `worldBytes`**, it has fewer than `2 ^ 32` rooms, and every entry
of its map points to one of them. -/
theorem worldSave_ok {w : WorldData R} {file : List UInt8} (hsave : worldSave m h w = .ok file) :
    file = worldBytes h m w ∧ w.world.length < unsignedRange ∧
      ∀ node ∈ w.worldMap.nodes, (entryOf w.world node).isSome := by
  obtain ⟨globalVerbs, hglobal, hsave⟩ := bind_eq_ok hsave
  obtain ⟨rooms, hrooms, hsave⟩ := bind_eq_ok hsave
  obtain ⟨entries, hentries, hsave⟩ := bind_eq_ok hsave
  have hglobalVerbs : globalVerbs =
      if hashSize w.verbMap ≠ 0 then (verbsOf w.verbMap).flatMap verbWrite else [] := by
    split at hglobal
    · rename_i hne
      rw [if_pos hne, writeVerbs_ok hglobal]
    · rename_i hne
      rw [if_neg hne]
      exact (Except.ok.inj hglobal).symm
  split at hrooms
  case isFalse => exact absurd hrooms (by simp)
  rename_i hlt
  obtain ⟨hroomBytes, -⟩ := forall_of_foldlM (fun _ _ _ => saveRoom_ok h m) hrooms
  obtain ⟨hentryBytes, hall⟩ := forall_of_foldlM
    (g := fun node => (entryOf w.world node).toList.flatMap entryBytes)
    (fun node _ out hout => by
      obtain ⟨entry, hentry, rfl⟩ := saveEntry_ok hout
      rw [hentry, Option.toList_some, List.flatMap_singleton])
    (foldlM_of_hashForEach hentries)
  refine ⟨?_, hlt, fun node hnode => ?_⟩
  · rw [← Except.ok.inj hsave, hglobalVerbs, hroomBytes, hentryBytes, worldBytes, headBytes,
      entriesOf, List.filterMap_eq_flatMap_toList, List.flatMap_assoc]
    simp only [List.flatten_cons, List.flatten_nil, List.nil_append, List.append_nil,
      List.append_assoc]
  · obtain ⟨b, hb⟩ := hall node hnode
    obtain ⟨entry, hentry, -⟩ := saveEntry_ok hb
    rw [hentry]
    rfl

/-- As many entries are written as there are. -/
theorem length_entriesOf {w : WorldData R}
    (h : ∀ node ∈ w.worldMap.nodes, (entryOf w.world node).isSome) :
    (entriesOf w).length = w.worldMap.stored :=
  List.filterMap_length_eq_length.mpr h

end

end Storage

end NetCosm
