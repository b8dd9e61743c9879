import NetCosm.Table.MultimapCopy
import NetCosm.Table.Releases
import NetCosm.Objects.TakeAndDrop

/-!
# How long objects live

An object is destroyed with the last reference to it, and the references a map keeps
are given up when the map is freed: with the account of a user, or with the whole
server.  A reference that nobody gives up keeps its object for good.

`WorldOp` is what may happen to the objects of a running server: the operations of
`ObjOp`, and accounts that are added and removed.  An account that is added again
keeps its inventory, which is shared by the old record and the new one for a moment.
`forgotten` is the list of the references that are lost in one operation:

* `req_drop`, when the hook refuses, moves the object back with `userdb_add_obj` and
  gives it a reference that `userdb_add_obj` does not keep;
* `room_obj_add_alias` adds an object to the room when there is none of its name, and
  then keeps the creator's reference; when there is one, nobody does.

`lifetimes_exact` says that these are all: no run follows a bad pointer, and when the
maps are freed at the end, in any order, an object is left exactly if a reference to
it was forgotten, with a count of how many were.
-/

namespace NetCosm

open World

variable {asserts : Bool} {T : Fault → Prop} {held : ObjId → ℕ} {w w' : World ℕ} {c : Container}
  {m : ObjMap} {id : ObjId} {o : Object ℕ}

/-! ## Maps that come and go -/

/-- What may happen to the objects of a running server. -/
inductive WorldOp where
  | object (op : ObjOp)
  | addAccount (user : CString)
  | removeAccount (user : CString)

section

variable {κ : Type}

namespace World

/-- The world without the map of a container. -/
def dropMap (w : World κ) (c : Container) : World κ :=
  { w with
    maps := w.maps.filter fun e => e.1 ≠ c
    distinct := w.distinct.sublist (List.filter_sublist.map Prod.fst) }

/-- The world with a map for a container, in place of the one it has. -/
def putMap (w : World κ) (c : Container) (m : ObjMap) : World κ :=
  { w with
    maps := (c, m) :: (w.dropMap c).maps
    distinct := by
      refine List.nodup_cons.mpr ⟨fun h => ?_, (w.dropMap c).distinct⟩
      obtain ⟨e, he, heq⟩ := List.mem_map.mp h
      have hne : e.1 ≠ c := by simpa [dropMap] using (List.mem_filter.mp he).2
      exact hne heq }

end World

variable [Add κ] [Sub κ] [OfNat κ 0] [OfNat κ 1] [DecidableEq κ]

/-- The loop of `free_node`, which `hash_free` calls for one node after another, with
the callback `obj_free` installed. -/
def freePairs (w : World κ) (l : List ObjPair) : Except Fault (World κ) :=
  l.foldlM (fun w p => objFree w p.val) w

/-- `multimap_free` on the map of a container. -/
def multimapFreeObjs (w : World κ) (c : Container) : Except Fault (World κ) := do
  let m ← w.getMap c
  if m.refcount - 1 = 0 then freePairs (w.dropMap c) m.pairs
  else pure (w.setMap c { m with refcount := m.refcount - 1 })

/-- `userdb_add`, for the inventory.  A record that is there already shares its
inventory with the new one, by `multimap_dup`, and is then freed. -/
def userdbAddAccount (w : World κ) (user : CString) : Except Fault (World κ) :=
  match w.map? (.inventory user) with
  | some m => multimapFreeObjs (w.setMap (.inventory user) { m with refcount := m.refcount + 1 })
      (.inventory user)
  | none => pure (w.putMap (.inventory user) (multimapInit 8))

/-- `userdb_remove`, for the inventory: `free_userdata` frees it with the record. -/
def userdbRemoveAccount (w : World κ) (user : CString) : Except Fault (World κ) :=
  match w.map? (.inventory user) with
  | some _ => multimapFreeObjs w (.inventory user)
  | none => pure w

/-- The maps are freed when the server is shut down: those of the users by
`userdb_shutdown`, and those of the rooms by `world_free`. -/
def freeMaps (w : World κ) (order : List Container) : Except Fault (World κ) :=
  order.foldlM multimapFreeObjs w

/-- One operation. -/
def worldStep (asserts : Bool) (classes : List CString) (w : World κ) : WorldOp → Except Fault (World κ)
  | .object op => objStep asserts classes w op
  | .addAccount user => userdbAddAccount w user
  | .removeAccount user => userdbRemoveAccount w user

end

/-! ## The same with numbers -/

section

variable {w : World UInt32} {v : World ℕ}

theorem Tracks.dropMap (h : Tracks noMore w v) (c : Container) : Tracks noMore (w.dropMap c) (v.dropMap c) :=
  ⟨h.eq ▸ rfl, h.counted, h.spare, h.fresh⟩

theorem Tracks.putMap (h : Tracks noMore w v) (c : Container) (m : ObjMap) :
    Tracks noMore (w.putMap c m) (v.putMap c m) :=
  ⟨h.eq ▸ rfl, h.counted, h.spare, h.fresh⟩

theorem Tracks.agree_freePairs (h : Tracks noMore w v) (l : List ObjPair) :
    Agree (Tracks noMore) (freePairs w l) (freePairs v l) :=
  agree_foldlM (I := fun _ => Tracks noMore) (fun p _ _ _ h' => h'.agree_objFree p.val) h

theorem Tracks.agree_multimapFreeObjs (h : Tracks noMore w v) (c : Container) :
    Agree (Tracks noMore) (multimapFreeObjs w c) (multimapFreeObjs v c) := by
  unfold multimapFreeObjs
  rw [← World.getMap_toNat, h.eq]
  refine (agree_refl (S := Eq) fun _ _ => rfl).bind ?_
  rintro m _ rfl
  by_cases hlast : m.refcount - 1 = 0
  · rw [if_pos hlast, if_pos hlast]
    exact (h.dropMap c).agree_freePairs m.pairs
  · rw [if_neg hlast, if_neg hlast]
    exact agree_pure (h.setMap c _)

theorem Tracks.agree_userdbAddAccount (h : Tracks noMore w v) (user : CString) :
    Agree (Tracks noMore) (userdbAddAccount w user) (userdbAddAccount v user) := by
  unfold userdbAddAccount
  rw [← World.map?_toNat, h.eq]
  cases v.map? (.inventory user) with
  | some m => exact (h.setMap _ _).agree_multimapFreeObjs (.inventory user)
  | none => exact agree_pure (h.putMap _ _)

theorem Tracks.agree_userdbRemoveAccount (h : Tracks noMore w v) (user : CString) :
    Agree (Tracks noMore) (userdbRemoveAccount w user) (userdbRemoveAccount v user) := by
  unfold userdbRemoveAccount
  rw [← World.map?_toNat, h.eq]
  cases v.map? (.inventory user) with
  | some m => exact h.agree_multimapFreeObjs (.inventory user)
  | none => exact agree_pure h

theorem Tracks.agree_freeMaps (h : Tracks noMore w v) (order : List Container) :
    Agree (Tracks noMore) (freeMaps w order) (freeMaps v order) :=
  agree_foldlM (I := fun _ => Tracks noMore) (fun c _ _ _ h' => h'.agree_multimapFreeObjs c) h

/-- **When no counter comes around.** -/
def WorldOp.Fits (asserts : Bool) (w : World UInt32) : WorldOp → Prop
  | .object op => op.Fits asserts w
  | .addAccount _ | .removeAccount _ => True

/-- **An operation does what it does with numbers**, if no counter comes around. -/
theorem Tracks.agree_worldStep (h : Tracks noMore w v) (classes : List CString) {op : WorldOp}
    (hfits : op.Fits asserts w) :
    Agree (Tracks noMore) (worldStep asserts classes w op) (worldStep asserts classes v op) := by
  cases op with
  | object op => exact h.agree_objStep classes hfits
  | addAccount user => exact h.agree_userdbAddAccount user
  | removeAccount user => exact h.agree_userdbRemoveAccount user

end

/-! ## The lemmas of the two writes -/

namespace World

theorem map?_dropMap_self (w : World ℕ) (c : Container) : (w.dropMap c).map? c = none := by
  rw [map?, Option.map_eq_none_iff, List.find?_eq_none]
  intro e he
  simpa [dropMap] using (List.mem_filter.mp he).2

theorem map?_dropMap_ne {c' : Container} (h : c' ≠ c) : (w.dropMap c).map? c' = w.map? c' := by
  rw [map?, map?]
  congr 1
  rw [dropMap, List.find?_filter]
  congr 1
  funext e
  by_cases he : e.1 = c'
  · simp [he, h]
  · simp [he]

theorem map?_putMap_self (w : World ℕ) (c : Container) (m : ObjMap) :
    (w.putMap c m).map? c = some m := by
  simp [map?, putMap]

theorem map?_putMap_ne {c' : Container} (h : c' ≠ c) (m : ObjMap) :
    (w.putMap c m).map? c' = w.map? c' := by
  refine Eq.trans ?_ (map?_dropMap_ne h)
  simp [map?, putMap, Ne.symm h]

/-- A map that is put where there was none. -/
theorem dropMap_of_none (h : w.map? c = none) : (w.dropMap c).maps = w.maps := by
  refine List.filter_eq_self.mpr fun e he => ?_
  rw [map?, Option.map_eq_none_iff, List.find?_eq_none] at h
  simpa using h e he

theorem containers_dropMap (w : World ℕ) (c : Container) :
    (w.dropMap c).maps.map Prod.fst = (w.maps.map Prod.fst).filter fun c' => c' ≠ c := by
  rw [dropMap, List.filter_map]
  rfl

/-- What dropping a map does to the references. -/
theorem refs_dropMap (h : w.map? c = some m) (x : ObjId) :
    (w.dropMap c).refs x + refsIn m.pairs x = w.refs x := by
  obtain ⟨pre, post, hold, -⟩ := exists_maps_eq h
  have hnodup := w.distinct
  rw [hold, List.map_append, List.map_cons, List.nodup_append, List.nodup_cons] at hnodup
  have hpre : pre.filter (fun e => e.1 ≠ c) = pre := by
    refine List.filter_eq_self.mpr fun e he => ?_
    have hne : e.1 ≠ c := fun heq =>
      hnodup.2.2 e.1 (List.mem_map_of_mem he) c (List.mem_cons_self ..) heq
    simpa using hne
  have hpost : post.filter (fun e => e.1 ≠ c) = post := by
    refine List.filter_eq_self.mpr fun e he => ?_
    have hne : e.1 ≠ c := fun heq => hnodup.2.1.1 (List.mem_map.mpr ⟨e, he, heq⟩)
    simpa using hne
  have hnew : (w.dropMap c).maps = pre ++ post := by
    show w.maps.filter _ = _
    rw [hold, List.filter_append, List.filter_cons, hpre, hpost]
    simp
  simp only [refs, cells, hold, hnew, List.flatMap_append, List.flatMap_cons, refsIn_append]
  omega

end World

/-! ## One owner for every map -/

/-- Every map has one owner. -/
def World.Unshared (w : World ℕ) : Prop := ∀ c m, w.map? c = some m → m.refcount = 1

/-- The operations on a multimap leave the number of its owners alone. -/
theorem refcount_step {m' : ObjMap} {op : MultimapOp ObjKey ObjId}
    (h : multimapStep (objEnv asserts) objCompare m op = .ok m') : m'.refcount = m.refcount := by
  cases op with
  | insert key val =>
    obtain ⟨r, hins, rfl⟩ := map_eq_ok h
    exact refcount_insert hins
  | delete key val =>
    obtain rfl := Except.ok.inj h
    exact refcount_multimapDelete ..
  | deleteAll key =>
    obtain rfl := Except.ok.inj h
    rw [multimapDeleteAll]
    split <;> rfl

theorem Acts.unshared {ops : List (MultimapOp ObjKey ObjId)} (h : Acts asserts c id ops w w')
    (hw : w.Unshared) : w'.Unshared := by
  intro c' m₁ hm₁
  by_cases hc : c' = c
  · subst hc
    obtain ⟨m, m', hm, hm', hrun⟩ := h.map
    obtain rfl : m₁ = m' := Option.some.inj (hm₁.symm.trans hm')
    exact Runs.invariant_run (I := fun m : ObjMap => m.refcount = 1)
      (fun _ _ _ hone hstep => (refcount_step hstep).trans hone) (hw c' m hm) hrun
  · exact hw c' m₁ ((h.others c' hc).symm.trans hm₁)

theorem Moved.unshared {src dst : Container} {texts : List CString}
    (h : Moved asserts src dst id o texts w w') (hw : w.Unshared) : w'.Unshared := by
  obtain ⟨w₁, h₁, h₂⟩ := h.between
  exact h₂.unshared (h₁.unshared hw)

/-- Every reference is on the books, and every map has one owner. -/
structure World.Managed (asserts : Bool) (held : ObjId → ℕ) (w : World ℕ) : Prop
    extends w.Booked asserts held where
  unshared : w.Unshared

/-! ## Freeing maps -/

/-- How often each object is in a list. -/
def tally (l : List ObjId) : ObjId → ℕ := fun id => l.count id

@[simp] theorem tally_nil : tally [] = 0 := rfl

theorem tally_cons (id : ObjId) (l : List ObjId) : tally (id :: l) = tally l + Pi.single id 1 := by
  funext x
  by_cases hx : x = id
  · simp [tally, hx]
  · simp [tally, hx, Ne.symm hx]

theorem tally_append (l l' : List ObjId) : tally (l ++ l') = tally l + tally l' := by
  funext x
  exact List.count_append

theorem refsIn_eq_tally (l : List ObjPair) : refsIn l = tally (l.map MultimapPair.val) := by
  funext x
  rw [tally, List.count, List.countP_map]
  rfl

/-- **A map that is dropped** leaves its references to whoever dropped it. -/
theorem World.Booked.dropMap (hw : w.Booked asserts held) (hm : w.map? c = some m) :
    (w.dropMap c).Booked asserts (held + tally (m.pairs.map MultimapPair.val)) := by
  have hrefs : ∀ x, (w.dropMap c).refs x + (held + tally (m.pairs.map MultimapPair.val)) x =
      w.refs x + held x := fun x => by
    rw [← refsIn_eq_tally, Pi.add_apply, ← refs_dropMap hm]
    omega
  refine ⟨fun c' m' hm' => ?_, hw.fresh, fun x o ho => ?_, fun x hx => ?_⟩
  · by_cases hc : c' = c
    · rw [hc, map?_dropMap_self] at hm'
      exact absurd hm' (by simp)
    · rw [map?_dropMap_ne hc] at hm'
      exact hw.regular c' m' hm'
  · rw [hrefs]
    exact hw.live x o ho
  · rw [hrefs]
    exact hw.dead x hx

/-- **The loop of `free_node`** gives up one reference for every cell. -/
theorem sat_freePairs {l : List ObjPair}
    (hw : w.Booked asserts (held + tally (l.map MultimapPair.val))) :
    Sat T (freePairs w l) fun w' => w'.Booked asserts held ∧ w'.maps = w.maps := by
  refine (sat_foldlM (I := fun l w' =>
    w'.Booked asserts (held + tally (l.map MultimapPair.val)) ∧ w'.maps = w.maps) ?_ ⟨hw, rfl⟩).mono
    fun w' h => ?_
  · rintro p l w' ⟨hbooked, hmaps⟩
    rw [List.map_cons, tally_cons, ← add_assoc] at hbooked
    refine (sat_objFree (n := 0) hbooked).mono ?_
    rintro w'' ⟨hbooked', hmaps', -⟩
    rw [Pi.single_zero, add_zero] at hbooked'
    exact ⟨hbooked', hmaps'.trans hmaps⟩
  · simpa using h

/-- **`multimap_free`** of a map with one owner. -/
theorem sat_multimapFreeObjs (hw : w.Managed asserts held) (hm : w.map? c = some m) :
    Sat T (multimapFreeObjs w c) fun w' =>
      w'.Managed asserts held ∧ w'.maps = (w.dropMap c).maps := by
  rw [multimapFreeObjs, getMap_eq hm]
  show Sat T (if m.refcount - 1 = 0 then _ else _) _
  rw [hw.unshared c m hm, UInt32.sub_self, if_pos rfl]
  refine (sat_freePairs (hw.toBooked.dropMap hm)).mono ?_
  rintro w' ⟨hbooked, hmaps⟩
  refine ⟨⟨hbooked, fun c' m' hm' => ?_⟩, hmaps⟩
  have heq : (w.dropMap c).map? c' = some m' := by rwa [World.map?, ← hmaps]
  by_cases hc : c' = c
  · rw [hc, map?_dropMap_self] at heq
    exact absurd heq (by simp)
  · rw [map?_dropMap_ne hc] at heq
    exact hw.unshared c' m' heq

/-- **All maps are freed**, in some order, without following a bad pointer. -/
theorem sat_freeMaps {order : List Container} (hw : w.Managed asserts held)
    (horder : order.Perm (w.maps.map Prod.fst)) :
    Sat T (freeMaps w order) fun w' => w'.Booked asserts held ∧ w'.maps = [] := by
  refine (sat_foldlM (I := fun order w' => w'.Managed asserts held ∧
    order.Perm (w'.maps.map Prod.fst)) ?_ ⟨hw, horder⟩).mono fun w' h => ?_
  · rintro c order w' ⟨hw', hperm⟩
    have hmem : c ∈ w'.maps.map Prod.fst := hperm.subset (List.mem_cons_self ..)
    obtain ⟨⟨c', m⟩, he, rfl⟩ := List.mem_map.mp hmem
    refine (sat_multimapFreeObjs hw' (mem_maps_iff.mp he)).mono ?_
    rintro w'' ⟨hw'', hmaps⟩
    refine ⟨hw'', ?_⟩
    have hnodup := hperm.nodup_iff.mpr w'.distinct
    rw [hmaps, containers_dropMap]
    have hrest := hperm.filter fun d => d ≠ c'
    rw [List.filter_cons, if_neg (by simp), List.filter_eq_self.mpr] at hrest
    · exact hrest
    · intro d hd
      have hne : d ≠ c' := fun heq => (List.nodup_cons.mp hnodup).1 (heq ▸ hd)
      simpa using hne
  · exact ⟨h.1.toBooked, by simpa using h.2.symm⟩

/-- What is left when there are no maps: the objects somebody else refers to. -/
theorem World.Booked.left_of_nil (hw : w.Booked asserts held) (hmaps : w.maps = []) (id : ObjId) :
    (w.objects id).map Object.refcount = if held id = 0 then none else some (held id) := by
  have hrefs : w.refs id = 0 := by
    rw [World.refs, World.cells, hmaps]
    rfl
  cases ho : w.objects id with
  | none =>
    have hdead := hw.dead id ho
    rw [if_pos (by omega)]
    rfl
  | some o =>
    obtain ⟨hcount, hpos⟩ := hw.live id o ho
    rw [hrefs, Nat.zero_add] at hcount
    rw [if_neg (by omega), Option.map_some, hcount]

/-! ## Accounts -/

/-- Writing to the number of owners of a map does not touch the books. -/
theorem World.Booked.setRefcount (hw : w.Booked asserts held) (hm : w.map? c = some m) (n : UInt32) :
    (w.setMap c { m with refcount := n }).Booked asserts held := by
  obtain ⟨hplaced, hsame, hnodup, hbelow⟩ := hw.regular c m hm
  exact hw.setMap hm ⟨hplaced, hsame, hnodup, hbelow⟩ fun _ => rfl

theorem World.Booked.putMap (hw : w.Booked asserts held) (hnone : w.map? c = none) (sz : ℕ) :
    (w.putMap c (multimapInit sz)).Booked asserts held := by
  have hrefs : ∀ x, (w.putMap c (multimapInit sz)).refs x = w.refs x := fun x => by
    rw [World.refs, World.refs, World.cells, World.cells, World.putMap, List.flatMap_cons,
      dropMap_of_none hnone, refsIn_append]
    simp
  refine ⟨fun c' m hm => ?_, hw.fresh, fun x o ho => ?_, fun x hx => ?_⟩
  · by_cases hc : c' = c
    · rw [hc, map?_putMap_self] at hm
      exact Option.some.inj hm ▸ regular_init (objEnv asserts) sz
    · rw [map?_putMap_ne hc] at hm
      exact hw.regular c' m hm
  · rw [hrefs]
    exact hw.live x o ho
  · rw [hrefs]
    exact hw.dead x hx

/-- **`userdb_add`** keeps the inventory of a user, and gives a new user an empty one. -/
theorem sat_userdbAddAccount (user : CString) (hw : w.Managed asserts held) :
    Sat T (userdbAddAccount w user) fun w' => w'.Managed asserts held := by
  unfold userdbAddAccount
  split
  · next m hm =>
    have hone := hw.unshared _ m hm
    have hm₁ := map?_setMap_self hm { m with refcount := m.refcount + 1 }
    rw [multimapFreeObjs, getMap_eq hm₁]
    have hback : m.refcount + 1 - 1 = 1 := (add_sub_cancel_right ..).trans hone
    show Sat T (if m.refcount + 1 - 1 = 0 then _ else _) _
    rw [if_neg (by rw [hback]; decide)]
    refine sat_pure ⟨(hw.toBooked.setRefcount hm _).setRefcount hm₁ _, fun c' m' hm' => ?_⟩
    by_cases hc : c' = .inventory user
    · rw [hc, map?_setMap_self hm₁] at hm'
      obtain rfl := Option.some.inj hm'
      exact hback
    · rw [map?_setMap_ne hc, map?_setMap_ne hc] at hm'
      exact hw.unshared c' m' hm'
  · next hnone =>
    refine sat_pure ⟨hw.toBooked.putMap hnone 8, fun c' m' hm' => ?_⟩
    by_cases hc : c' = .inventory user
    · rw [hc, map?_putMap_self] at hm'
      exact Option.some.inj hm' ▸ rfl
    · rw [map?_putMap_ne hc] at hm'
      exact hw.unshared c' m' hm'

/-- **`userdb_remove`** gives up the references of the inventory. -/
theorem sat_userdbRemoveAccount (user : CString) (hw : w.Managed asserts held) :
    Sat T (userdbRemoveAccount w user) fun w' => w'.Managed asserts held := by
  unfold userdbRemoveAccount
  split
  · next m hm => exact (sat_multimapFreeObjs hw hm).mono fun w' h => h.1
  · exact sat_pure hw

/-! ## The operations on objects -/

section

variable {src dst : Container} {w₀ w₁ : World ℕ} {p : ObjPair} {rest : List ObjPair}

/-- Moving the object of a cell away and back. -/
theorem Walking.moveBack {held' : ObjId → ℕ} {texts texts' : List CString}
    (h : Walking asserts held src dst w₀ (p :: rest) w) (hne : src ≠ dst)
    (ho : w.objects p.val = some o) (hmoved : Moved asserts src dst p.val o texts w w₁)
    (hback : Moved asserts dst src p.val o texts' w₁ w') (horder : w'.InOrder asserts held')
    (hlive : (w'.objects p.val).isSome = true) (honce : ∀ q ∈ rest, q.val ≠ p.val) :
    Walking asserts held' src dst w₀ rest w' := by
  obtain ⟨ms, hms, hregular, hrest⟩ := h.read
  obtain ⟨md, hmd⟩ := h.destination
  obtain ⟨ms₁, md₁, hms₁, hmd₁, hdel, -⟩ := hmoved.maps hne hms hmd
  obtain ⟨md', ms', hmd', hms', -, hins⟩ := hback.maps (Ne.symm hne) hmd₁ hms₁
  have hlive₁ : (w₁.objects p.val).isSome = true := by
    obtain ⟨u, hu₁, hu₂⟩ := hback.between
    obtain ⟨o₂, ho₂⟩ := Option.isSome_iff_exists.mp hlive
    obtain ⟨o₁, ho₁, -⟩ := hu₂.object o₂ ho₂
    obtain ⟨o', ho', -⟩ := hu₁.object o₁ ho₁
    rw [ho']
    rfl
  have hdescr := (hmoved.frame ho hlive₁).1
  obtain ⟨n, ho₁⟩ := exists_object_of_descr (congrFun hdescr p.val).symm ho
  have hdescr' := (Moved.frame (o := { o with refcount := n }) ⟨hback.between⟩ ho₁ hlive).1
  refine ⟨horder, (hdescr'.trans hdescr).trans h.descr, ⟨ms', hms', fun hcons => ?_⟩, md', hmd'⟩
  have hsame := others_eq_self honce
  have hrun : Runs.run (multimapStep (objEnv asserts) objCompare) ms
      (deleteOps p.val (o.aliasList ++ [o.name]) ++ insertOps p.val texts') = .ok ms' := by
    rw [Runs.run_append_ok hdel]
    exact hins
  have hkept := hasRest_ops (fun op hop => (List.mem_append.mp hop).elim
    onValue_of_mem_deleteOps onValue_of_mem_insertOps) hregular hrest.tail hrun (by rwa [hsame])
  rw [hsame, or_self] at hkept
  exact hkept

end

section

variable {hooks : CString → ObjClass} {sender : Sender} {name : CString}

/-- **Taking forgets nothing**, if nothing that is moved is listed twice. -/
theorem sat_reqTake_managed {mr mi : ObjMap} (hw : w.Managed asserts held) (hkeys : w.KeysLive)
    (hmr : w.map? (.room sender.room) = some mr)
    (hmi : w.map? (.inventory sender.user) = some mi)
    (honce : ListedOnce (w.asks ObjClass.hookTake hooks sender)
      (w.listed asserts (.room sender.room) ⟨name, none⟩)) :
    Sat (fun e => e.isBadPointer = false) (reqTake asserts hooks sender name w)
      fun r => r.2.Managed asserts held := by
  have horder : w.InOrder asserts held := ⟨hw.toBooked, hkeys⟩
  refine sat_bind (sat_lookupObjs horder hmr) fun l hl => ?_
  rw [hl] at honce
  cases l with
  | nil => exact sat_pure hw
  | cons p rest =>
    refine (sat_walkList (P := fun l w' =>
      Walking asserts held (.room sender.room) (.inventory sender.user) w l w' ∧
        w'.Unshared ∧ ListedOnce (w.asks ObjClass.hookTake hooks sender) l)
      (fun _ _ _ h => h.1.read) ?_ (Nat.le_refl _)
      ⟨walking_listed horder hmr hmi hl, hw.unshared, honce⟩).mono
      fun r h => ⟨h.1.order.toBooked, h.2.1⟩
    rintro q rest w' ⟨hwalk, hunshared, honce⟩
    obtain ⟨o, ho⟩ := hwalk.exists_object
    obtain ⟨mr', hmr', -⟩ := hwalk.source
    obtain ⟨mi', hmi'⟩ := hwalk.destination
    obtain ⟨hq, hrest⟩ := List.pairwise_cons.mp honce
    refine (sat_takeOne hwalk.order ho hmi' hmr'
      fun _ e he => isBadPointer_of_run_error he).mono ?_
    rintro r ⟨horder', hlive, htaken, hsame⟩
    refine ⟨rest, rfl, Nat.le_refl _, ?_⟩
    cases hallow : allows (hooks o.cls).hookTake q.val sender with
    | true =>
      have hmoved := htaken hallow
      refine ⟨hwalk.move (by simp) ho hmoved horder' hlive fun q' hq' => hq q' hq' ?_,
        hmoved.unshared hunshared, hrest⟩
      rw [asks_eq hwalk.descr ObjClass.hookTake hooks sender ho]
      exact hallow
    | false =>
      rw [hsame hallow]
      exact ⟨hwalk.skip, hunshared, hrest⟩

/-- The objects of a list that a drop is refused for. -/
def World.refused (w : World ℕ) (hooks : CString → ObjClass) (sender : Sender) (l : List ObjPair) :
    List ObjId :=
  (l.map MultimapPair.val).filter fun id => !w.asks ObjClass.hookDrop hooks sender id

/-- **Dropping forgets one reference to each object it is refused for**, if nothing is
listed twice. -/
theorem sat_reqDrop_managed {mr : ObjMap} (hw : w.Managed asserts held) (hkeys : w.KeysLive)
    (hmr : w.map? (.room sender.room) = some mr)
    (honce : ListedOnce (fun _ => true)
      (w.listed asserts (.inventory sender.user) ⟨name, none⟩)) :
    Sat (fun e => e.isBadPointer = false) (reqDrop asserts hooks sender name w)
      fun r => r.2.Managed asserts (held + tally (w.refused hooks sender
        (w.listed asserts (.inventory sender.user) ⟨name, none⟩))) := by
  have horder : w.InOrder asserts held := ⟨hw.toBooked, hkeys⟩
  cases hmi : w.map? (.inventory sender.user) with
  | none =>
    simp only [reqDrop, hmi, World.listed]
    refine sat_pure ?_
    rw [World.refused, List.map_nil, List.filter_nil, tally_nil, add_zero]
    exact hw
  | some mi =>
    simp only [reqDrop, hmi]
    refine sat_bind (sat_lookupObjs horder hmi) fun l hl => ?_
    rw [hl] at honce ⊢
    cases l with
    | nil =>
      refine sat_pure ?_
      rw [World.refused, List.map_nil, List.filter_nil, tally_nil, add_zero]
      exact hw
    | cons p rest =>
      -- what is held, and what is still to be forgotten, stay the same together
      refine (sat_walkList (P := fun l w' => ∃ held',
        Walking asserts held' (.inventory sender.user) (.room sender.room) w l w' ∧
          w'.Unshared ∧ ListedOnce (fun _ => true) l ∧
          held' + tally (w.refused hooks sender l) =
            held + tally (w.refused hooks sender (p :: rest)))
        (fun _ _ _ h => h.elim fun _ h => h.1.read) ?_ (Nat.le_refl _)
        ⟨held, walking_listed horder hmi hmr hl, hw.unshared, honce, rfl⟩).mono ?_
      · rintro q rest' w' ⟨held', hwalk, hunshared, honce, hheld⟩
        obtain ⟨o, ho⟩ := hwalk.exists_object
        obtain ⟨mi', hmi', -⟩ := hwalk.source
        obtain ⟨mr', hmr'⟩ := hwalk.destination
        obtain ⟨hq, hrest⟩ := List.pairwise_cons.mp honce
        have hasks := asks_eq hwalk.descr ObjClass.hookDrop hooks sender ho
        refine (sat_dropOne hwalk.order ho hmi' hmr' (fun e he => isBadPointer_of_run_error he)
          fun _ _ e _ he => isBadPointer_of_run_error he).mono ?_
        rintro r ⟨hlive, hdropped, hrefused⟩
        refine ⟨rest', rfl, Nat.le_refl _, ?_⟩
        rw [World.refused, List.map_cons, List.filter_cons, hasks] at hheld
        cases hallow : allows (hooks o.cls).hookDrop q.val sender with
        | true =>
          rw [hallow, if_neg (by decide)] at hheld
          obtain ⟨horder', hmoved⟩ := hdropped hallow
          exact ⟨held', hwalk.move (by simp) ho hmoved horder' hlive fun q' hq' => hq q' hq' rfl,
            hmoved.unshared hunshared, hrest, hheld⟩
        | false =>
          rw [hallow, if_pos (by decide), tally_cons, ← add_assoc, add_right_comm] at hheld
          obtain ⟨horder', w₁, hmoved, hback⟩ := hrefused hallow
          exact ⟨held' + Pi.single q.val 1,
            hwalk.moveBack (by simp) ho hmoved hback horder' hlive fun q' hq' => hq q' hq' rfl,
            hback.unshared (hmoved.unshared hunshared), hrest, hheld⟩
      · rintro r ⟨held', hwalk, hunshared, -, hheld⟩
        rw [World.refused, List.map_nil, List.filter_nil, tally_nil, add_zero] at hheld
        exact ⟨hheld ▸ hwalk.order.toBooked, hunshared⟩

end

/-! ## Which runs -/

/-- **When an operation follows no bad pointer.**  The rooms and objects it is about are
there, and the keys of the maps; an object that is moved is not listed twice, and one
that is taken out of a map outlives its aliases there. -/
def ObjOp.Grounded (asserts : Bool) (w : World ℕ) (op : ObjOp) : Prop :=
  w.KeysLive ∧
    match op with
    | .add room _ _ _ | .newAlias room _ _ _ => (w.map? (.room room)).isSome = true
    | .addAlias room id _ =>
        ∃ o ∈ w.objects id, w.listed asserts (.room room) ⟨o.name, some id⟩ ≠ []
    | .take hooks sender name =>
        (w.map? (.room sender.room)).isSome = true ∧
          (w.map? (.inventory sender.user)).isSome = true ∧
          ListedOnce (w.asks ObjClass.hookTake hooks sender)
            (w.listed asserts (.room sender.room) ⟨name, none⟩)
    | .drop _ sender name =>
        (w.map? (.room sender.room)).isSome = true ∧
          ListedOnce (fun _ => true) (w.listed asserts (.inventory sender.user) ⟨name, none⟩)
    | .roomDel room id =>
        (w.map? (.room room)).isSome = true ∧ (w.objects id).isSome = true ∧
          w.OutlivesAliases asserts (.room room) id
    | .userDel user id =>
        (w.map? (.inventory user)).isSome = true ∧ (w.objects id).isSome = true ∧
          w.OutlivesAliases asserts (.inventory user) id

/-- An account may be added or removed at any time. -/
def WorldOp.Grounded (asserts : Bool) (w : World ℕ) : WorldOp → Prop
  | .object op => op.Grounded asserts w
  | .addAccount _ | .removeAccount _ => True

/-- **The references that an operation loses.** -/
def WorldOp.forgotten (asserts : Bool) (w : World ℕ) : WorldOp → List ObjId
  | .object (.drop hooks sender name) =>
      w.refused hooks sender (w.listed asserts (.inventory sender.user) ⟨name, none⟩)
  | .object (.newAlias room _ name _) =>
      if (w.listed asserts (.room room) ⟨name, some w.idcounter⟩).isEmpty then []
      else [w.idcounter]
  | _ => []

instance (asserts : Bool) (w : World ℕ) : (op : ObjOp) → Decidable (op.Grounded asserts w)
  | .add .. | .newAlias .. | .addAlias .. | .take .. | .drop .. | .roomDel .. | .userDel .. =>
      instDecidableAnd

instance (asserts : Bool) (w : World ℕ) : (op : WorldOp) → Decidable (op.Grounded asserts w)
  | .object op => inferInstanceAs (Decidable (op.Grounded asserts w))
  | .addAccount _ | .removeAccount _ => inferInstanceAs (Decidable True)

instance WorldOp.decidableFits (asserts : Bool) (w : World UInt32) :
    (op : WorldOp) → Decidable (op.Fits asserts w)
  | .object op => inferInstanceAs (Decidable (op.Fits asserts w))
  | .addAccount _ | .removeAccount _ => inferInstanceAs (Decidable True)

/-! ## One operation -/

variable {classes : List CString}

/-- **Adding a new object to a room** gives the room the creator's reference. -/
theorem sat_add_managed {room : RoomId} {cls name : CString} {aliasList : List CString}
    (hw : w.Managed asserts held) (hkeys : w.KeysLive) (hm : w.map? (.room room) = some m) :
    Sat (fun e => e.isBadPointer = false) (objStep asserts classes w (.add room cls name aliasList))
      fun w' => w'.Managed asserts held := by
  refine sat_bind (sat_objNew ⟨hw.toBooked, hkeys⟩ rfl) ?_
  rintro ⟨id, w₁⟩ ⟨-, hw₁, ho, -, hmaps⟩
  have hmap : ∀ c, w₁.map? c = w.map? c := fun c => by rw [World.map?, World.map?, hmaps]
  have hm₁ : w₁.map? (.room room) = some m := (hmap _).trans hm
  refine sat_bind (sat_roomObjAdd hw₁ ho hm₁ fun e he => isBadPointer_of_run_error he) ?_
  rintro r ⟨hacts, hw₂, -⟩
  exact sat_pure ⟨hw₂.toBooked, hacts.unshared fun c m hc => hw.unshared c m ((hmap c).symm.trans hc)⟩

/-- **A new object that is only given an alias** is added to the room if there is none of
its name. -/
theorem sat_newAlias_managed {room : RoomId} {cls name aliasName : CString}
    (hw : w.Managed asserts held) (hkeys : w.KeysLive) (hm : w.map? (.room room) = some m) :
    Sat (fun e => e.isBadPointer = false)
      (objStep asserts classes w (.newAlias room cls name aliasName))
      fun w' => w'.Managed asserts (held + tally
        (WorldOp.forgotten asserts w (.object (.newAlias room cls name aliasName)))) := by
  refine sat_bind (sat_objNew ⟨hw.toBooked, hkeys⟩ rfl) ?_
  rintro ⟨id, w₁⟩ ⟨hid, hw₁, ho, -, hmaps⟩
  dsimp only at hid hw₁ ho hmaps
  subst hid
  have hmap : ∀ c, w₁.map? c = w.map? c := fun c => by rw [World.map?, World.map?, hmaps]
  have hm₁ : w₁.map? (.room room) = some m := (hmap _).trans hm
  have hunshared : w₁.Unshared := fun c m hc => hw.unshared c m ((hmap c).symm.trans hc)
  have hstops : ∀ (key : ObjKey) (m : ObjMap) (e : Fault),
      multimapInsert (objEnv asserts) m key w.idcounter = .error e → e.isBadPointer = false := by
    intro key m e he
    rcases hashResize_error (multimapInsert_error he).2 with rfl | rfl <;> rfl
  rw [WorldOp.forgotten, listed_eq hm]
  by_cases hmissing : (multimapLookup (objEnv asserts) m ⟨name, some w.idcounter⟩).1 = []
  · rw [hmissing, List.isEmpty_nil, if_pos rfl, tally_nil, add_zero]
    refine sat_bind (sat_roomObjAddAlias_of_held hw₁ ho hm₁ hmissing
      (fun e he => isBadPointer_of_run_error he) fun _ e he => ?_) ?_
    · obtain ⟨m', op, hstep⟩ := Runs.exists_step_error he
      rcases multimapStep_error hstep with rfl | rfl <;> rfl
    rintro r ⟨hw₂, -, w₂, o₂, hacts, ho₂, -, hcases⟩
    refine sat_pure ⟨hw₂.toBooked, ?_⟩
    have hunshared₂ := hacts.unshared hunshared
    rcases hcases with ⟨-, heq⟩ | ⟨-, hstored⟩
    · rw [heq]
      exact hunshared₂
    · exact hstored.unshared hunshared₂
  · rw [Bool.eq_false_iff.mpr fun h => hmissing (List.isEmpty_iff.mp h), if_neg (by decide),
      tally_cons, tally_nil, zero_add]
    refine sat_bind (sat_roomObjAddAlias_of_found hw₁ ho hm₁ hmissing
      fun _ e he => hstops _ _ e he) ?_
    rintro r ⟨hw₂, -, hcases⟩
    refine sat_pure ⟨hw₂.toBooked, ?_⟩
    rcases hcases with ⟨-, heq⟩ | ⟨-, hstored⟩
    · rw [heq]
      exact hunshared
    · exact hstored.unshared hunshared

/-- **Giving an alias to an object** forgets nothing. -/
theorem sat_addAlias_managed {room : RoomId} {aliasName : CString} (hw : w.Managed asserts held)
    (hkeys : w.KeysLive) (ho : w.objects id = some o)
    (hfound : w.listed asserts (.room room) ⟨o.name, some id⟩ ≠ []) :
    Sat (fun e => e.isBadPointer = false) (roomObjAddAlias asserts w room id aliasName)
      fun r => r.2.Managed asserts held := by
  cases hm : w.map? (.room room) with
  | none => exact absurd (by rw [World.listed, hm]) hfound
  | some m =>
    rw [listed_eq hm] at hfound
    refine (sat_roomObjAddAlias_of_found ⟨hw.toBooked, hkeys⟩ ho hm hfound
      fun _ e he => ?_).mono ?_
    · rcases hashResize_error (multimapInsert_error he).2 with rfl | rfl <;> rfl
    · rintro r ⟨hw', -, hcases⟩
      refine ⟨hw'.toBooked, ?_⟩
      rcases hcases with ⟨-, heq⟩ | ⟨-, hstored⟩
      · rw [heq]
        exact hw.unshared
      · exact hstored.unshared hw.unshared

/-- **Taking an object out of a map** forgets nothing. -/
theorem sat_delObjByPtr_managed (hw : w.Managed asserts held) (hkeys : w.KeysLive)
    (hm : w.map? c = some m) (hlive : (w.objects id).isSome = true)
    (hkeep : w.OutlivesAliases asserts c id) :
    Sat T (delObjByPtr asserts w c id) fun r => r.2.Managed asserts held := by
  obtain ⟨o, ho⟩ := Option.isSome_iff_exists.mp hlive
  refine (sat_delObjByPtr ⟨hw.toBooked, hkeys⟩ ho hm fun texts w' htexts hacts => ?_).mono ?_
  · exact Nat.add_pos_left (hkeep.refs_pos hw.toBooked ho htexts hacts) _
  · exact fun r h => ⟨h.2.1, h.1.unshared hw.unshared⟩

/-- **One operation** follows no bad pointer, and loses the references it is said to
lose. -/
theorem sat_worldStep {op : WorldOp} (hw : w.Managed asserts held) (hg : op.Grounded asserts w) :
    Sat (fun e => e.isBadPointer = false) (worldStep asserts classes w op)
      fun w' => w'.Managed asserts (held + tally (op.forgotten asserts w)) := by
  cases op with
  | addAccount user => exact sat_userdbAddAccount user hw
  | removeAccount user => exact sat_userdbRemoveAccount user hw
  | object op =>
    obtain ⟨hkeys, hg⟩ := hg
    cases op with
    | add room cls name aliasList =>
      obtain ⟨m, hm⟩ := Option.isSome_iff_exists.mp hg
      exact sat_add_managed hw hkeys hm
    | newAlias room cls name aliasName =>
      obtain ⟨m, hm⟩ := Option.isSome_iff_exists.mp hg
      exact sat_newAlias_managed hw hkeys hm
    | addAlias room id aliasName =>
      obtain ⟨o, ho, hfound⟩ := hg
      exact sat_map (sat_addAlias_managed hw hkeys ho hfound)
    | take hooks sender name =>
      obtain ⟨mr, hmr⟩ := Option.isSome_iff_exists.mp hg.1
      obtain ⟨mi, hmi⟩ := Option.isSome_iff_exists.mp hg.2.1
      exact sat_map (sat_reqTake_managed hw hkeys hmr hmi hg.2.2)
    | drop hooks sender name =>
      obtain ⟨mr, hmr⟩ := Option.isSome_iff_exists.mp hg.1
      exact sat_map (sat_reqDrop_managed hw hkeys hmr hg.2)
    | roomDel room id =>
      obtain ⟨m, hm⟩ := Option.isSome_iff_exists.mp hg.1
      exact sat_map (sat_delObjByPtr_managed hw hkeys hm hg.2.1 hg.2.2)
    | userDel user id =>
      obtain ⟨m, hm⟩ := Option.isSome_iff_exists.mp hg.1
      exact sat_map (sat_delObjByPtr_managed hw hkeys hm hg.2.1 hg.2.2)

/-! ## Runs -/

theorem managed_init (asserts : Bool) (sizes : List (Container × ℕ))
    (distinct : (sizes.map Prod.fst).Nodup) : (World.init sizes distinct).Managed asserts 0 := by
  refine ⟨booked_init asserts sizes distinct, fun c m hm => ?_⟩
  obtain ⟨e, -, heq⟩ := List.mem_map.mp (mem_maps_iff.mpr hm)
  obtain ⟨rfl, rfl⟩ := Prod.mk.inj heq
  rfl

/-- How many references to each object a run loses. -/
def forgottenIn (asserts : Bool) (classes : List CString) (w : World UInt32) (ops : List WorldOp) :
    ObjId → ℕ :=
  tally (Runs.outputs (worldStep asserts classes) (fun w op => op.forgotten asserts w.toNat) w ops)

/-- The same where counts are numbers. -/
def lostIn (asserts : Bool) (classes : List CString) (w : World ℕ) (ops : List WorldOp) : ObjId → ℕ :=
  tally (Runs.outputs (worldStep asserts classes) (fun w op => op.forgotten asserts w) w ops)

/-- A run loses the references its operations lose. -/
theorem sat_worldRun {ops : List WorldOp} (hw : w.Managed asserts 0)
    (h : Runs.EachStep (worldStep asserts classes) (fun w op => op.Grounded asserts w) w ops) :
    Sat (fun e => e.isBadPointer = false) (Runs.run (worldStep asserts classes) w ops)
      fun w' => w'.Managed asserts (lostIn asserts classes w ops) := by
  have hstep : ∀ (lost : List ObjId) (w : World ℕ) (op : WorldOp), w.Managed asserts (tally lost) →
      op.Grounded asserts w → Sat (fun e => e.isBadPointer = false) (worldStep asserts classes w op)
        fun w' => w'.Managed asserts (tally (lost ++ op.forgotten asserts w)) := by
    intro lost w op hw hg
    rw [tally_append]
    exact sat_worldStep hw hg
  have hinit : w.Managed asserts (tally []) := hw
  have hrun := Runs.sat_outputs (I := fun lost w => w.Managed asserts (tally lost)) hstep hinit h
  exact hrun

/-- What becomes of the objects of a run where counts are numbers. -/
theorem lifetimes_ideally (asserts : Bool) (classes : List CString) (sizes : List (Container × ℕ))
    (distinct : (sizes.map Prod.fst).Nodup) (ops : List WorldOp)
    (h : Runs.EachStep (worldStep asserts classes) (fun w op => op.Grounded asserts w)
      (World.init sizes distinct) ops) :
    (∀ e, Runs.run (worldStep asserts classes) (World.init sizes distinct : World ℕ) ops = .error e →
        e.isBadPointer = false) ∧
      ∀ w, Runs.run (worldStep asserts classes) (World.init sizes distinct : World ℕ) ops = .ok w →
        (∀ id o, w.objects id = some o →
          o.refcount = w.refs id + lostIn asserts classes (World.init sizes distinct) ops id) ∧
        ∀ order : List Container, order.Perm (w.maps.map Prod.fst) →
          ∃ w', freeMaps w order = .ok w' ∧ ∀ id, (w'.objects id).map Object.refcount =
            if lostIn asserts classes (World.init sizes distinct) ops id = 0 then none
            else some (lostIn asserts classes (World.init sizes distinct) ops id) := by
  have hrun := sat_worldRun (managed_init asserts sizes distinct) h
  refine ⟨fun e he => hrun.error_of_eq he, fun w hw => ?_⟩
  have hmanaged := hrun.of_eq hw
  refine ⟨fun id o ho => (hmanaged.live id o ho).1, fun order horder => ?_⟩
  have hfree : Sat (fun _ => False) (freeMaps w order) _ := sat_freeMaps hmanaged horder
  cases hfreed : freeMaps w order with
  | error e => exact (hfree.error_of_eq hfreed).elim
  | ok w' =>
    obtain ⟨hbooked, hnil⟩ := hfree.of_eq hfreed
    exact ⟨w', rfl, hbooked.left_of_nil hnil⟩

/-- **What becomes of the objects of a run.**  As long as every operation is grounded and
no counter comes around, the run is not stopped by a bad pointer, and in the state it ends
in the count of an object is the number of pairs that refer to it and of references to it
that were forgotten.  When the maps are freed then, in any order, what is left is the
objects to which a reference was forgotten. -/
theorem lifetimes_exact (asserts : Bool) (classes : List CString) (sizes : List (Container × ℕ))
    (distinct : (sizes.map Prod.fst).Nodup) (ops : List WorldOp)
    (h : Runs.EachStep (worldStep asserts classes)
      (fun (w : World UInt32) op => op.Grounded asserts w.toNat ∧ op.Fits asserts w)
      (World.init sizes distinct) ops) :
    (∀ e, Runs.run (worldStep asserts classes) (World.init sizes distinct : World UInt32) ops =
        .error e → e.isBadPointer = false) ∧
      ∀ w, Runs.run (worldStep asserts classes) (World.init sizes distinct) ops = .ok w →
        (∀ id o, w.objects id = some o → o.refcount.toNat =
          w.toNat.refs id + forgottenIn asserts classes (World.init sizes distinct) ops id) ∧
        ∀ order : List Container, order.Perm (w.maps.map Prod.fst) →
          ∃ w', freeMaps w order = .ok w' ∧ ∀ id, (w'.objects id).map (fun o => o.refcount.toNat) =
            if forgottenIn asserts classes (World.init sizes distinct) ops id = 0 then none
            else some (forgottenIn asserts classes (World.init sizes distinct) ops id) := by
  have hstep : ∀ (w : World UInt32) (v : World ℕ) (op : WorldOp), Tracks noMore w v →
      op.Grounded asserts w.toNat ∧ op.Fits asserts w →
        Agree (Tracks noMore) (worldStep asserts classes w op) (worldStep asserts classes v op) :=
    fun _ _ _ hwv hg => hwv.agree_worldStep classes hg.2
  have hinit := tracks_init sizes distinct
  have hrun := Runs.agree_run hstep hinit h
  have hlost : forgottenIn asserts classes (World.init sizes distinct) ops =
      lostIn asserts classes (World.init sizes distinct) ops :=
    congrArg tally (Runs.outputs_of_agree hstep (fun _ _ _ hwv => by rw [hwv.eq]) hinit h)
  obtain ⟨herror, hends⟩ := lifetimes_ideally asserts classes sizes distinct ops
    (Runs.agree_eachStep hstep (fun _ _ _ hwv hg => hwv.eq ▸ hg.1) hinit h)
  refine ⟨fun e he => herror e (hrun.error_of_eq he), fun w hw => ?_⟩
  obtain ⟨v, hv, hwv⟩ := hrun.of_ok hw
  have heq := hwv.eq
  subst heq
  rw [hlost]
  obtain ⟨hcounts, hfree⟩ := hends _ hv
  refine ⟨fun id o ho => hcounts id o.toNat (congrArg (Option.map Object.toNat) ho), fun order horder => ?_⟩
  obtain ⟨v', hv', hleft⟩ := hfree order horder
  obtain ⟨w', hw', htracks⟩ := (hwv.agree_freeMaps order).of_ok_right hv'
  refine ⟨w', hw', fun id => ?_⟩
  rw [← hleft id, ← htracks.eq]
  exact (Option.map_map Object.refcount Object.toNat (w'.objects id)).symm

/-! ## Two objects -/

/-- A user comes, takes the first of two objects, drops it, and leaves for good with the
second one; the hook that is asked about a drop answers `answer`. -/
def visit (answer : Bool) : List WorldOp :=
  let hooks := fun _ => ⟨none, some fun _ _ => answer⟩
  let sender := ⟨letter 118, 0⟩
  [.object (.add 0 (letter 99) (letter 120) []), .object (.add 0 (letter 99) (letter 121) []),
    .addAccount (letter 118),
    .object (.take hooks sender (letter 120)), .object (.drop hooks sender (letter 120)),
    .object (.take hooks sender (letter 121)),
    .addAccount (letter 118), .removeAccount (letter 118)]

/-- The server is shut down after the drop was refused. -/
theorem lifetimes_exact_visit :
    (∀ e, Runs.run (worldStep true [letter 99]) roomAndUser (visit false) = .error e →
        e.isBadPointer = false) ∧
      ∀ w, Runs.run (worldStep true [letter 99]) roomAndUser (visit false) = .ok w →
        (∀ id o, w.objects id = some o →
          o.refcount.toNat =
            w.toNat.refs id + forgottenIn true [letter 99] roomAndUser (visit false) id) ∧
        ∀ order : List Container, order.Perm (w.maps.map Prod.fst) →
          ∃ w', freeMaps w order = .ok w' ∧ ∀ id, (w'.objects id).map (fun o => o.refcount.toNat) =
            if forgottenIn true [letter 99] roomAndUser (visit false) id = 0 then none
            else some (forgottenIn true [letter 99] roomAndUser (visit false) id) :=
  lifetimes_exact true [letter 99] _ _ (visit false) (by decide +kernel)

/-- Nothing is forgotten if the drop is allowed, and one reference if it is refused. -/
example : ([true, false].map fun answer =>
    [1, 2].map (forgottenIn true [letter 99] roomAndUser (visit answer))) = [[0, 0], [1, 0]] := by
  decide +kernel

end NetCosm
