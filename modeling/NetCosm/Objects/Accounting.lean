import NetCosm.Library.Outcome
import NetCosm.Objects.World

/-!
# The books of the object store

Every pair in a map is a reference to its object, and so is every pointer that
running code owns: one taken with `obj_dup` and not yet stored or freed, or one that
has been forgotten.  `Booked held w` says that the count of every live object is the
number of pairs that refer to it plus the number `held` of references outside the
maps, and that there is no reference to anything else.

The functions of the object store are specified once, in the form they are used in
everywhere: `Acts c id ops w w'` says that the map of `c` went through the multimap
operations `ops`, that no other map changed, and that nothing was done to any object
but `id`, whose fields are what they were.  What the operations do to the pairs of
the map is then a question about multimaps and is answered there.

A growth of a map may stop the server.  The specifications leave that open: they
hold for every set `T` of tolerated faults that includes those the operations on the
map stop with.
-/

namespace NetCosm

/-! ## Maps of the world -/

/-- The number of cells that refer to an object. -/
def refsIn (l : List ObjPair) (id : ObjId) : ℕ := l.countP fun p => p.val == id

@[simp] theorem refsIn_nil (id : ObjId) : refsIn [] id = 0 := rfl

@[simp] theorem refsIn_append (l l' : List ObjPair) (id : ObjId) :
    refsIn (l ++ l') id = refsIn l id + refsIn l' id := List.countP_append

@[simp] theorem refsIn_cons (p : ObjPair) (l : List ObjPair) (id : ObjId) :
    refsIn (p :: l) id = refsIn l id + if p.val = id then 1 else 0 := by
  simp [refsIn, List.countP_cons]

theorem refsIn_perm {l l' : List ObjPair} (h : l.Perm l') (id : ObjId) :
    refsIn l id = refsIn l' id := h.countP_eq _

theorem refsIn_eq_zero_iff {l : List ObjPair} {id : ObjId} :
    refsIn l id = 0 ↔ ∀ p ∈ l, p.val ≠ id := by
  rw [refsIn, List.countP_eq_zero]
  simp

namespace World

/-- Every pair in every map. -/
def cells (w : World ℕ) : List ObjPair := w.maps.flatMap fun e => e.2.pairs

/-- The number of pairs that refer to an object. -/
def refs (w : World ℕ) (id : ObjId) : ℕ := refsIn w.cells id

/-- Writing to a map is replacing one entry of the list of maps. -/
theorem exists_maps_eq {w : World ℕ} {c : Container} {m : ObjMap} (h : w.map? c = some m) :
    ∃ pre post, w.maps = pre ++ (c, m) :: post ∧
      ∀ m', (w.setMap c m').maps = pre ++ (c, m') :: post := by
  obtain ⟨⟨c', m₀⟩, hfind, rfl⟩ := Option.map_eq_some_iff.mp h
  obtain ⟨hc, pre, post, hsplit, hpre⟩ := List.find?_eq_some_iff_append.mp hfind
  obtain rfl : c' = c := by simpa using hc
  refine ⟨pre, post, hsplit, fun m' => ?_⟩
  have hnodup := w.distinct
  rw [hsplit, List.map_append, List.map_cons, List.nodup_append, List.nodup_cons] at hnodup
  have hpre' : (pre.map fun e => if e.1 = c' then (c', m') else e) = pre := by
    refine (List.map_congr_left fun e he => ?_).trans pre.map_id
    rw [if_neg (by simpa using hpre e he)]
    rfl
  have hpost : (post.map fun e => if e.1 = c' then (c', m') else e) = post := by
    refine (List.map_congr_left fun e he => ?_).trans post.map_id
    have hne : e.1 ≠ c' := fun heq => hnodup.2.1.1 (List.mem_map.mpr ⟨e, he, heq⟩)
    rw [if_neg hne]
    rfl
  simp [setMap, hsplit, hpre', hpost]

theorem map?_setMap_self {w : World ℕ} {c : Container} {m : ObjMap} (h : w.map? c = some m)
    (m' : ObjMap) : (w.setMap c m').map? c = some m' := by
  obtain ⟨⟨c', m₀⟩, hfind, -⟩ := Option.map_eq_some_iff.mp h
  have hc : c' = c := by simpa using List.find?_some hfind
  simp only [map?, setMap, List.find?_map, Function.comp_def]
  have hcongr : (w.maps.find? fun e => decide ((if e.1 = c then (c, m') else e).1 = c)) =
      w.maps.find? fun e => decide (e.1 = c) := by
    congr 1
    funext e
    by_cases he : e.1 = c <;> simp [he]
  rw [hcongr, hfind]
  simp [hc]

theorem map?_setMap_ne {w : World ℕ} {c c' : Container} (h : c' ≠ c) (m : ObjMap) :
    (w.setMap c m).map? c' = w.map? c' := by
  simp only [map?, setMap, List.find?_map, Function.comp_def]
  have hcongr : (w.maps.find? fun e => decide ((if e.1 = c then (c, m) else e).1 = c')) =
      w.maps.find? fun e => decide (e.1 = c') := by
    congr 1
    funext e
    by_cases he : e.1 = c <;> simp [he, Ne.symm h]
  rw [hcongr]
  cases hfind : w.maps.find? fun e => decide (e.1 = c') with
  | none => rfl
  | some e =>
    have he : e.1 = c' := by simpa using List.find?_some hfind
    simp [he, h]

@[simp] theorem map?_setObject (w : World ℕ) (id : ObjId) (o : Option (Object ℕ)) (c : Container) :
    (w.setObject id o).map? c = w.map? c := rfl

@[simp] theorem refs_setObject (w : World ℕ) (id : ObjId) (o : Option (Object ℕ)) (x : ObjId) :
    (w.setObject id o).refs x = w.refs x := rfl

theorem mem_maps_iff {w : World ℕ} {c : Container} {m : ObjMap} :
    (c, m) ∈ w.maps ↔ w.map? c = some m := by
  constructor
  · intro h
    cases hfind : w.maps.find? fun e => decide (e.1 = c) with
    | none => exact absurd (List.find?_eq_none.mp hfind _ h) (by simp)
    | some e =>
      have he : e.1 = c := by simpa using List.find?_some hfind
      have heq := List.inj_on_of_nodup_map w.distinct (List.mem_of_find?_eq_some hfind) h he
      rw [map?, hfind, heq]
      rfl
  · intro h
    obtain ⟨⟨c', m'⟩, hfind, rfl⟩ := Option.map_eq_some_iff.mp h
    have hc : c' = c := by simpa using List.find?_some hfind
    exact hc ▸ List.mem_of_find?_eq_some hfind

theorem mem_cells_iff {w : World ℕ} {p : ObjPair} :
    p ∈ w.cells ↔ ∃ c m, w.map? c = some m ∧ p ∈ m.pairs := by
  rw [cells, List.mem_flatMap]
  constructor
  · rintro ⟨⟨c, m⟩, he, hp⟩
    exact ⟨c, m, mem_maps_iff.mp he, hp⟩
  · rintro ⟨c, m, hc, hp⟩
    exact ⟨(c, m), mem_maps_iff.mpr hc, hp⟩

/-- The pairs in the map of a container. -/
def pairsIn (w : World ℕ) (c : Container) : List ObjPair :=
  match w.map? c with
  | some m => m.pairs
  | none => []

/-- The pairs that are found under a key in the map of a container. -/
def listed (asserts : Bool) (w : World ℕ) (c : Container) (key : ObjKey) : List ObjPair :=
  match w.map? c with
  | some m => (multimapLookup (objEnv asserts) m key).1
  | none => []

theorem pairsIn_eq {w : World ℕ} {c : Container} {m : ObjMap} (h : w.map? c = some m) :
    w.pairsIn c = m.pairs := by
  simp only [pairsIn, h]

theorem listed_eq {w : World ℕ} {c : Container} {m : ObjMap} (h : w.map? c = some m)
    (asserts : Bool) (key : ObjKey) :
    w.listed asserts c key = (multimapLookup (objEnv asserts) m key).1 := by
  simp only [listed, h]

theorem mem_cells_of_mem_pairsIn {w : World ℕ} {c : Container} {p : ObjPair}
    (h : p ∈ w.pairsIn c) : p ∈ w.cells := by
  cases hm : w.map? c with
  | none => simp [pairsIn, hm] at h
  | some m => exact mem_cells_iff.mpr ⟨c, m, hm, pairsIn_eq hm ▸ h⟩

/-- What writing to a map does to the references. -/
theorem refs_setMap {w : World ℕ} {c : Container} {m : ObjMap} (h : w.map? c = some m)
    (m' : ObjMap) (id : ObjId) :
    (w.setMap c m').refs id + refsIn m.pairs id = w.refs id + refsIn m'.pairs id := by
  obtain ⟨pre, post, hold, hnew⟩ := exists_maps_eq h
  simp only [refs, cells, hold, hnew m', List.flatMap_append, List.flatMap_cons, refsIn_append]
  omega

theorem refs_eq_zero_iff {w : World ℕ} {id : ObjId} :
    w.refs id = 0 ↔ ∀ p ∈ w.cells, p.val ≠ id := refsIn_eq_zero_iff

/-! ## The invariant -/

/-- Every reference is on the books. -/
structure Booked (asserts : Bool) (held : ObjId → ℕ) (w : World ℕ) : Prop where
  regular : ∀ c m, w.map? c = some m → m.Regular (objEnv asserts)
  fresh : ∀ id, w.idcounter ≤ id → w.objects id = none
  live : ∀ id o, w.objects id = some o → o.refcount = w.refs id + held id ∧ 0 < o.refcount
  dead : ∀ id, w.objects id = none → w.refs id + held id = 0

/-- No key of a table is the string of a destroyed object. -/
def KeysLive (w : World ℕ) : Prop :=
  ∀ e ∈ w.maps, ∀ n ∈ e.2.hashTab.nodes, w.readable n.key = true

instance (w : World ℕ) : Decidable w.KeysLive :=
  inferInstanceAs (Decidable (∀ e ∈ w.maps, ∀ n ∈ e.2.hashTab.nodes, w.readable n.key = true))

theorem keysLive_iff {w : World ℕ} :
    w.KeysLive ↔ ∀ c m, w.map? c = some m → ∀ n ∈ m.hashTab.nodes, w.readable n.key = true :=
  ⟨fun h c m hm n hn => h (c, m) (mem_maps_iff.mpr hm) n hn,
    fun h e he n hn => h e.1 e.2 (mem_maps_iff.mp he) n hn⟩

end World

open World

theorem objEnv_same_iff {asserts : Bool} {a b : ObjKey} :
    (objEnv asserts).Same a b ↔ a.text.bytes.map lower = b.text.bytes.map lower :=
  compareStringsNocase_eq_zero_iff

theorem objEnv_equivalence (asserts : Bool) : Equivalence (objEnv asserts).Same where
  refl _ := objEnv_same_iff.mpr rfl
  symm h := objEnv_same_iff.mpr (objEnv_same_iff.mp h).symm
  trans h h' := objEnv_same_iff.mpr ((objEnv_same_iff.mp h).trans (objEnv_same_iff.mp h'))

@[simp] theorem objCompare_eq_zero_iff {a b : ObjId} : objCompare a b = 0 ↔ a = b := by
  simp [objCompare]

/-- An object that somebody refers to is live. -/
theorem World.Booked.exists_object {asserts : Bool} {held : ObjId → ℕ} {w : World ℕ}
    (hw : w.Booked asserts held) {id : ObjId} (h : 0 < w.refs id + held id) :
    ∃ o, w.objects id = some o := by
  cases ho : w.objects id with
  | some o => exact ⟨o, rfl⟩
  | none => exact absurd (hw.dead id ho) (by omega)

theorem refs_pos_of_mem {w : World ℕ} {p : ObjPair} (hp : p ∈ w.cells) : 0 < w.refs p.val := by
  rw [Nat.pos_iff_ne_zero, Ne, refs_eq_zero_iff]
  exact fun h => h p hp rfl

/-- A server without objects. -/
theorem booked_init (asserts : Bool) (sizes : List (Container × ℕ))
    (distinct : (sizes.map Prod.fst).Nodup) : (World.init sizes distinct).Booked asserts 0 := by
  have hmap : ∀ c m, (World.init sizes distinct : World ℕ).map? c = some m → ∃ n, m = multimapInit n := by
    intro c m h
    obtain ⟨e, -, heq⟩ := List.mem_map.mp (mem_maps_iff.mpr h)
    exact ⟨e.2, (congrArg Prod.snd heq).symm⟩
  refine ⟨fun c m h => ?_, fun _ _ => rfl, fun id o ho => absurd ho (by simp [World.init]),
    fun id _ => ?_⟩
  · obtain ⟨n, rfl⟩ := hmap c m h
    exact regular_init (objEnv asserts) n
  · rw [Pi.zero_apply, Nat.add_zero, refs_eq_zero_iff]
    intro p hp
    obtain ⟨c, m, hm, hpm⟩ := mem_cells_iff.mp hp
    obtain ⟨n, rfl⟩ := hmap c m hm
    exact absurd hpm (by simp)

/-- The books after an object has been written to, if its count is right. -/
theorem World.Booked.setObject {asserts : Bool} {held held' : ObjId → ℕ} {w : World ℕ}
    (hw : w.Booked asserts held) {id : ObjId} {o o' : Object ℕ} (ho : w.objects id = some o)
    (hcount : o'.refcount = w.refs id + held' id) (hpos : 0 < o'.refcount)
    (hheld : ∀ x, x ≠ id → held' x = held x) : (w.setObject id (some o')).Booked asserts held' := by
  refine ⟨hw.regular, fun x hx => ?_, fun x ox hox => ?_, fun x hx => ?_⟩
  · have hne : x ≠ id := by
      rintro rfl
      exact absurd (hw.fresh x hx) (by simp [ho])
    simpa [World.setObject, hne] using hw.fresh x hx
  · by_cases hx : x = id
    · subst hx
      obtain rfl : o' = ox := by simpa [World.setObject] using hox
      exact ⟨hcount, hpos⟩
    · rw [hheld x hx]
      exact hw.live x ox (by simpa [World.setObject, hx] using hox)
  · have hne : x ≠ id := by
      rintro rfl
      simp [World.setObject] at hx
    rw [hheld x hne]
    exact hw.dead x (by simpa [World.setObject, hne] using hx)

/-- `obj_dup` puts one more reference on the books. -/
theorem World.Booked.dup {asserts : Bool} {held : ObjId → ℕ} {w : World ℕ}
    (hw : w.Booked asserts held) {id : ObjId} {o : Object ℕ} (ho : w.objects id = some o) :
    (w.setObject id (some { o with refcount := o.refcount + 1 })).Booked asserts
      (held + Pi.single id 1) := by
  refine hw.setObject ho ?_ (Nat.succ_pos _) fun x hx => by simp [hx]
  have h := (hw.live id o ho).1
  simp only [Pi.add_apply, Pi.single_eq_same]
  omega

/-- The books after a map has been written to, if what it gained or lost is held
outside. -/
theorem World.Booked.setMap {asserts : Bool} {held held' : ObjId → ℕ} {w : World ℕ}
    (hw : w.Booked asserts held) {c : Container} {m m' : ObjMap} (hm : w.map? c = some m)
    (hregular : m'.Regular (objEnv asserts))
    (hcount : ∀ x, refsIn m'.pairs x + held' x = refsIn m.pairs x + held x) :
    (w.setMap c m').Booked asserts held' := by
  have hrefs : ∀ x, (w.setMap c m').refs x + held' x = w.refs x + held x := fun x => by
    have h1 := refs_setMap hm m' x
    have h2 := hcount x
    omega
  refine ⟨fun c' m'' h => ?_, hw.fresh, fun x o ho => ?_, fun x hx => ?_⟩
  · by_cases hc : c' = c
    · subst hc
      rw [map?_setMap_self hm] at h
      exact Option.some.inj h ▸ hregular
    · rw [map?_setMap_ne hc] at h
      exact hw.regular c' m'' h
  · rw [hrefs]
    exact hw.live x o ho
  · rw [hrefs]
    exact hw.dead x hx

/-! ## Acting on one map for one object -/

/-- The map of `c` went through `ops`, no other map changed, and no object but `id`,
which has the fields it had if it is still there. -/
structure Acts (asserts : Bool) (c : Container) (id : ObjId) (ops : List (MultimapOp ObjKey ObjId))
    (w w' : World ℕ) : Prop where
  map : ∃ m m', w.map? c = some m ∧ w'.map? c = some m' ∧
    Runs.run (multimapStep (objEnv asserts) objCompare) m ops = .ok m'
  others : ∀ c', c' ≠ c → w'.map? c' = w.map? c'
  objects : ∀ x, x ≠ id → w'.objects x = w.objects x
  object : ∀ o', w'.objects id = some o' → ∃ o, w.objects id = some o ∧
    o' = { o with refcount := o'.refcount }
  idcounter : w'.idcounter = w.idcounter

theorem acts_nil {asserts : Bool} {c : Container} {id : ObjId} {w : World ℕ} {m : ObjMap}
    (hm : w.map? c = some m) : Acts asserts c id [] w w where
  map := ⟨m, m, hm, hm, rfl⟩
  others _ _ := rfl
  objects _ _ := rfl
  object o' ho' := ⟨o', ho', rfl⟩
  idcounter := rfl

theorem Acts.trans {asserts : Bool} {c : Container} {id : ObjId}
    {ops ops' : List (MultimapOp ObjKey ObjId)} {w w' w'' : World ℕ}
    (h : Acts asserts c id ops w w') (h' : Acts asserts c id ops' w' w'') :
    Acts asserts c id (ops ++ ops') w w'' where
  map := by
    obtain ⟨m, m₁, hm, hm₁, hrun⟩ := h.map
    obtain ⟨m₂, m₃, hm₂, hm₃, hrun'⟩ := h'.map
    obtain rfl : m₁ = m₂ := Option.some.inj (hm₁.symm.trans hm₂)
    exact ⟨m, m₃, hm, hm₃, Runs.run_append_ok hrun ops' ▸ hrun'⟩
  others c' hc := (h'.others c' hc).trans (h.others c' hc)
  objects x hx := (h'.objects x hx).trans (h.objects x hx)
  object o'' ho'' := by
    obtain ⟨o', ho', heq'⟩ := h'.object o'' ho''
    obtain ⟨o, ho, heq⟩ := h.object o' ho'
    exact ⟨o, ho, by rw [heq', heq]⟩
  idcounter := h'.idcounter.trans h.idcounter

/-- A key that can be read still can, if its owner was not destroyed. -/
theorem Acts.readable {asserts : Bool} {c : Container} {id : ObjId}
    {ops : List (MultimapOp ObjKey ObjId)} {w w' : World ℕ} (h : Acts asserts c id ops w w')
    (hlive : (w'.objects id).isSome = true) {key : ObjKey} (hkey : w.readable key = true) :
    w'.readable key = true := by
  unfold World.readable at hkey ⊢
  cases ho : key.owner with
  | none => rfl
  | some x =>
    rw [ho] at hkey
    by_cases hx : x = id
    · rw [hx]
      exact hlive
    · simpa only [h.objects x hx] using hkey

end NetCosm
