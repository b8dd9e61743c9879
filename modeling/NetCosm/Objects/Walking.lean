import NetCosm.Objects.Moves

/-!
# Walking a list while objects leave it

`req_take` and `req_drop` walk the list of what is found under a name, and move the
objects they come to into another map.  Moving an object deletes its pairs from the
map that is walked, so the cells still to be visited have to be looked after:
`sat_walkList` is the rule for the loop, and `Walking` is what it keeps while
objects are moved.

A move changes two maps and the number of references to one object.  Everything
else that is known of an object, `World.descr`, is the same before and after
(`Moved.frame`).
-/

namespace NetCosm

open World

variable {asserts : Bool} {T : Fault → Prop} {held : ObjId → ℕ} {w : World ℕ} {c : Container}
  {id : ObjId} {o : Object ℕ}

/-! ## What a move leaves alone -/

/-- What is known of an object, but for the number of references to it. -/
def World.descr (w : World ℕ) (id : ObjId) : Option (Object ℕ) :=
  (w.objects id).map fun o => { o with refcount := 0 }

theorem descr_eq (ho : w.objects id = some o) : w.descr id = some { o with refcount := 0 } := by
  rw [World.descr, ho]
  rfl

/-- Worlds that describe an object alike have the same object, references aside. -/
theorem exists_object_of_descr {w' : World ℕ} (h : w'.descr id = w.descr id)
    (ho : w'.objects id = some o) :
    ∃ n, w.objects id = some { o with refcount := n } := by
  rw [descr_eq ho] at h
  obtain ⟨o', ho', heq⟩ := Option.map_eq_some_iff.mp h.symm
  refine ⟨o'.refcount, ?_⟩
  rw [ho']
  cases o'
  cases o
  simpa using heq

theorem Acts.descr {w' : World ℕ} {ops : List (MultimapOp ObjKey ObjId)}
    (h : Acts asserts c id ops w w') (ho : w.objects id = some o)
    (hlive : (w'.objects id).isSome = true) : w'.descr = w.descr := by
  funext x
  by_cases hx : x = id
  · obtain ⟨n, ho'⟩ := h.same_object ho hlive
    rw [hx, descr_eq ho', descr_eq ho]
  · rw [World.descr, World.descr, h.objects x hx]

/-- A move changes two maps and describes every object as it was. -/
theorem Moved.frame {src dst : Container} {texts : List CString} {w' : World ℕ}
    (h : Moved asserts src dst id o texts w w') (ho : w.objects id = some o)
    (hlive : (w'.objects id).isSome = true) :
    w'.descr = w.descr ∧ ∀ c, c ≠ src → c ≠ dst → w'.map? c = w.map? c := by
  obtain ⟨w₁, h₁, h₂⟩ := h.between
  obtain ⟨o₂, ho₂⟩ := Option.isSome_iff_exists.mp hlive
  obtain ⟨o₁, ho₁, -⟩ := h₂.object o₂ ho₂
  refine ⟨(h₂.descr ho₁ hlive).trans (h₁.descr ho (by rw [ho₁]; rfl)), fun c hsrc hdst => ?_⟩
  rw [h₂.others c hsrc, h₁.others c hdst]

/-- What a move does to the two maps. -/
theorem Moved.maps {src dst : Container} {texts : List CString} {w' : World ℕ} {ms md : ObjMap}
    (h : Moved asserts src dst id o texts w w') (hne : src ≠ dst) (hs : w.map? src = some ms)
    (hd : w.map? dst = some md) :
    ∃ ms' md', w'.map? src = some ms' ∧ w'.map? dst = some md' ∧
      Runs.run (multimapStep (objEnv asserts) objCompare) ms
        (deleteOps id (o.aliasList ++ [o.name])) = .ok ms' ∧
      Runs.run (multimapStep (objEnv asserts) objCompare) md (insertOps id texts) = .ok md' := by
  obtain ⟨w₁, h₁, h₂⟩ := h.between
  obtain ⟨m, md', hm, hd₁, hins⟩ := h₁.map
  obtain rfl : m = md := Option.some.inj (hm.symm.trans hd)
  obtain ⟨m', ms', hm', hs₂, hdel⟩ := h₂.map
  obtain rfl : m' = ms := Option.some.inj (hm'.symm.trans ((h₁.others src hne).trans hs))
  exact ⟨ms', md', hs₂, (h₂.others dst (Ne.symm hne)).trans hd₁, hdel, hins⟩

/-! ## Walking a list -/

/-- **The loop of `req_take` and `req_drop`.**  `P l w` is what holds in world `w`
while the cells `l` are still to be visited.  They have to be in the map.  The body
may shorten what is behind the cell it is called for, but not by the next cell: the
loop holds a pointer to that one already. -/
theorem sat_walkList {body : World ℕ → ObjId → Except Fault (String × World ℕ)}
    {P : List ObjPair → World ℕ → Prop}
    (hread : ∀ p rest w, P (p :: rest) w → ∃ m, w.map? c = some m ∧
      m.Regular (objEnv asserts) ∧ m.HasRest (p :: rest))
    (hbody : ∀ p rest w, P (p :: rest) w → Sat T (body w p.val) fun r =>
      ∃ rest', rest'.head? = rest.head? ∧ rest'.length ≤ rest.length ∧ P rest' r.2)
    {n : ℕ} {l : List ObjPair} (hn : l.length ≤ n) (hw : P l w) :
    Sat T (walkList c body n w (l.head?.map MultimapPair.addr)) fun r => P [] r.2 := by
  induction n generalizing l w with
  | zero =>
    obtain rfl := List.length_eq_zero_iff.mp (Nat.le_zero.mp hn)
    exact sat_pure hw
  | succ n ih =>
    cases l with
    | nil => exact sat_pure hw
    | cons p rest =>
      obtain ⟨m, hm, hregular, hrest⟩ := hread p rest w hw
      have hget : Sat T (w.getMap c) (· = m) := by
        rw [getMap_eq hm]
        exact sat_ok rfl
      refine sat_bind hget ?_
      rintro _ rfl
      simp only [suffixAt_of_hasRest hregular hrest]
      refine sat_bind (hbody p rest w hw) ?_
      rintro r ⟨rest', hhead, hlength, hr⟩
      rw [← hhead]
      refine sat_bind (ih (hlength.trans (Nat.le_of_succ_le_succ hn)) hr) fun r' hr' => ?_
      exact sat_pure hr'

/-- What the loop of a request keeps while it moves objects from `src` to `dst`: the
cells `l` it has still to visit are in the map of `src`, in their order. -/
structure Walking (asserts : Bool) (held : ObjId → ℕ) (src dst : Container) (w₀ : World ℕ)
    (l : List ObjPair) (w : World ℕ) : Prop where
  order : w.InOrder asserts held
  descr : w.descr = w₀.descr
  source : ∃ m, w.map? src = some m ∧ (l ≠ [] → m.HasRest l)
  destination : ∃ m, w.map? dst = some m

theorem Walking.read {held : ObjId → ℕ} {src dst : Container} {w₀ : World ℕ} {p : ObjPair}
    {rest : List ObjPair} (h : Walking asserts held src dst w₀ (p :: rest) w) :
    ∃ m, w.map? src = some m ∧ m.Regular (objEnv asserts) ∧ m.HasRest (p :: rest) := by
  obtain ⟨m, hm, hrest⟩ := h.source
  exact ⟨m, hm, h.order.regular src m hm, hrest (List.cons_ne_nil p rest)⟩

/-- The object of the cell the walk stands on is live. -/
theorem Walking.exists_object {held : ObjId → ℕ} {src dst : Container} {w₀ : World ℕ} {p : ObjPair}
    {rest : List ObjPair} (h : Walking asserts held src dst w₀ (p :: rest) w) :
    ∃ o, w.objects p.val = some o := by
  obtain ⟨m, hm, -, n, hn, hsuf⟩ := h.read
  have hcell : p ∈ w.cells := mem_cells_iff.mpr
    ⟨src, m, hm, mem_pairs_iff.mpr ⟨n, hn, hsuf.subset (List.mem_cons_self ..)⟩⟩
  exact h.order.exists_object (Nat.add_pos_left (refs_pos_of_mem hcell) _)

/-- Passing a cell by. -/
theorem Walking.skip {held : ObjId → ℕ} {src dst : Container} {w₀ : World ℕ} {p : ObjPair}
    {rest : List ObjPair} (h : Walking asserts held src dst w₀ (p :: rest) w) :
    Walking asserts held src dst w₀ rest w where
  order := h.order
  descr := h.descr
  source := by
    obtain ⟨m, hm, -, hrest⟩ := h.read
    exact ⟨m, hm, fun _ => hrest.tail⟩
  destination := h.destination

theorem onValue_of_mem_insertOps {texts : List CString} {op : MultimapOp ObjKey ObjId}
    (h : op ∈ insertOps id texts) : op.OnValue id := by
  obtain ⟨text, -, rfl⟩ := List.mem_map.mp h
  rfl

theorem onValue_of_mem_deleteOps {texts : List CString} {op : MultimapOp ObjKey ObjId}
    (h : op ∈ deleteOps id texts) : op.OnValue id := by
  obtain ⟨text, -, rfl⟩ := List.mem_map.mp h
  rfl

/-- The cells of a list that are not about one object. -/
def others (id : ObjId) (l : List ObjPair) : List ObjPair := l.filter fun q => q.val ≠ id

theorem mem_others_iff {l : List ObjPair} {q : ObjPair} :
    q ∈ others id l ↔ q ∈ l ∧ q.val ≠ id := by
  simp [others]

theorem others_eq_self {l : List ObjPair} (h : ∀ q ∈ l, q.val ≠ id) : others id l = l :=
  List.filter_eq_self.mpr fun q hq => by simpa using h q hq

theorem others_others (l : List ObjPair) : others id (others id l) = others id l :=
  others_eq_self fun _ hq => (mem_others_iff.mp hq).2

/-- What operations about one object leave of a list: all of it, or the cells of the
other objects. -/
theorem hasRest_ops {m m' : ObjMap} {ops : List (MultimapOp ObjKey ObjId)} {l : List ObjPair}
    (hops : ∀ op ∈ ops, op.OnValue id) (hm : m.Regular (objEnv asserts)) (hl : m.HasRest l)
    (h : Runs.run (multimapStep (objEnv asserts) objCompare) m ops = .ok m')
    (hne : others id l ≠ []) : m'.HasRest l ∨ m'.HasRest (others id l) := by
  have hfilter : (l.filter fun q => !(objCompare id q.val == 0)) = others id l := by
    refine List.filter_congr fun q _ => ?_
    by_cases hq : q.val = id
    · simp [hq]
    · simp [hq, Ne.symm hq]
  rw [← hfilter] at hne ⊢
  exact hasRest_run (objEnv_equivalence asserts) hops hne hm (Or.inl hl) h

/-- Moving the object of a cell that is the only one of its object. -/
theorem Walking.move {held held' : ObjId → ℕ} {src dst : Container} {w₀ w' : World ℕ} {p : ObjPair}
    {rest : List ObjPair} {texts : List CString}
    (h : Walking asserts held src dst w₀ (p :: rest) w) (hne : src ≠ dst)
    (ho : w.objects p.val = some o) (hmoved : Moved asserts src dst p.val o texts w w')
    (horder : w'.InOrder asserts held') (hlive : (w'.objects p.val).isSome = true)
    (honce : ∀ q ∈ rest, q.val ≠ p.val) : Walking asserts held' src dst w₀ rest w' := by
  obtain ⟨ms, hms, hregular, hrest⟩ := h.read
  obtain ⟨md, hmd⟩ := h.destination
  obtain ⟨ms', md', hms', hmd', hdel, -⟩ := hmoved.maps hne hms hmd
  refine ⟨horder, (hmoved.frame ho hlive).1.trans h.descr, ⟨ms', hms', fun hcons => ?_⟩, md', hmd'⟩
  have hsame := others_eq_self honce
  have hkept := hasRest_ops (fun _ => onValue_of_mem_deleteOps) hregular hrest.tail hdel
    (by rwa [hsame])
  rw [hsame, or_self] at hkept
  exact hkept

/-! ## The first cell -/

/-- Reading a list to walk. -/
theorem sat_lookupObjs {m : ObjMap} {name : CString}
    (hw : w.InOrder asserts held) (hm : w.map? c = some m) :
    Sat T (lookupObjs asserts w c ⟨name, none⟩)
      fun l => w.listed asserts c ⟨name, none⟩ = l := by
  rw [lookupObjs, getMap_eq hm]
  show Sat T (do w.touch _; _) _
  rw [touch_eq (hw.keys.walked hm rfl)]
  exact sat_pure (listed_eq hm asserts _)

/-- The walk at its first cell. -/
theorem walking_listed {src dst : Container} {ms md : ObjMap} {key : ObjKey}
    {p : ObjPair} {rest : List ObjPair} (hw : w.InOrder asserts held)
    (hms : w.map? src = some ms) (hmd : w.map? dst = some md)
    (hl : w.listed asserts src key = p :: rest) :
    Walking asserts held src dst w (p :: rest) w := by
  rw [listed_eq hms] at hl
  exact ⟨hw, rfl, ⟨ms, hms, fun _ => hasRest_lookup hl⟩, md, hmd⟩

/-! ## What the hooks answer -/

/-- The answer of a hook about an object. -/
def World.asks (w : World ℕ) (hook : ObjClass → Option (ObjId → Sender → Bool))
    (hooks : CString → ObjClass) (sender : Sender) (id : ObjId) : Bool :=
  match w.objects id with
  | some o => allows (hook (hooks o.cls)) id sender
  | none => true

/-- What a hook answers depends on the description of the object. -/
theorem asks_eq {w₀ : World ℕ} (h : w.descr = w₀.descr)
    (hook : ObjClass → Option (ObjId → Sender → Bool)) (hooks : CString → ObjClass)
    (sender : Sender) (ho : w.objects id = some o) :
    w₀.asks hook hooks sender id = allows (hook (hooks o.cls)) id sender := by
  obtain ⟨n, ho₀⟩ := exists_object_of_descr (congrFun h id) ho
  rw [World.asks, ho₀]

end NetCosm
