import NetCosm.Objects.Additions
import NetCosm.Objects.Counters
import NetCosm.Objects.Walking

/-!
# Whether reference counts are exact

`obj_new` gives an object one reference.  `room_obj_add` stores it, every other
insertion stores one made by `obj_dup`, and every pair deleted is one `obj_free`.
So the count of an object should be the number of pairs that refer to it, and it
should be destroyed with the last of them: `World.RefCountsExact`.

It need not be.  `req_drop` puts the object into the room before it asks the hook,
and when the hook refuses it gives it back with `userdb_add_obj(user, obj_dup(obj))`.
But `userdb_add_obj` makes its own references, so the one `req_drop` made is stored
nowhere, and the object outlives its last pair.

`ObjOp.KeepsCounts` says when an operation is harmless, and
`refCounts_exact_of_keepsCounts` is the theorem about runs: if each step is, counts
are exact in every state reached, and no step follows a bad pointer.  Besides the
refused drop it excludes what can only go wrong once a map has lost or left behind
something:

* a table still has the string of a destroyed object as the key of a node;
* `room_obj_add_alias` does not find the object in its room, and adds it again;
* an object that is going to be moved is listed twice, so that the walk is left
  standing on a freed cell;
* all references to an object are found under its aliases, so that taking it out
  of a map destroys it before the last alias has been read.

And the counts are kept by an `unsigned`, which must not come around (`ObjOp.Fits`): an
object that has more keys than it can count is destroyed while it is in use.
-/

namespace NetCosm

open World

variable {asserts : Bool} {classes : List CString} {w : World ℕ} {c : Container} {id : ObjId}
  {o : Object ℕ}

/-! ## The property -/

/-- Counts are the numbers of pairs, and an object is destroyed exactly when there
are none. -/
def World.RefCountsExact (w : World UInt32) : Prop :=
  ∀ id, (w.objects id = none ↔ w.toNat.refs id = 0) ∧
    ∀ o, w.objects id = some o → o.refcount.toNat = w.toNat.refs id

/-- The same of counts that are numbers. -/
def World.CountsExact (w : World ℕ) : Prop :=
  ∀ id, (w.objects id = none ↔ w.refs id = 0) ∧
    ∀ o, w.objects id = some o → o.refcount = w.refs id

theorem World.CountsExact.refCountsExact {w : World UInt32} (h : w.toNat.CountsExact) :
    w.RefCountsExact := by
  have hnone : ∀ id, w.objects id = none ↔ w.toNat.objects id = none := fun id =>
    Option.map_eq_none_iff.symm
  refine fun id => ⟨(hnone id).trans (h id).1, fun o ho => (h id).2 o.toNat ?_⟩
  exact congrArg (Option.map Object.toNat) ho

theorem World.Booked.countsExact (hw : w.Booked asserts 0) : w.CountsExact := by
  refine fun id => ⟨⟨fun h => ?_, fun h => ?_⟩, fun o ho => (hw.live id o ho).1⟩
  · exact hw.dead id h
  · rw [Option.eq_none_iff_forall_ne_some]
    intro o ho
    have hlive := hw.live id o ho
    simp only [Pi.zero_apply] at hlive
    omega

/-! ## Which runs -/

/-- No two of the strings are equal up to case. -/
def KeysApart (texts : List CString) : Prop :=
  texts.Pairwise fun a b => compareStringsNocase a b ≠ 0

instance (texts : List CString) : Decidable (KeysApart texts) :=
  inferInstanceAs (Decidable (List.Pairwise _ _))

/-- The operations are about rooms, users and objects that are there, an alias is
given in a room the object is in, and the keys of an object stay apart. -/
def ObjOp.InDomain (w : World ℕ) : ObjOp → Prop
  | .add room _ name aliasList =>
      (w.map? (.room room)).isSome = true ∧ KeysApart (name :: aliasList)
  | .newAlias _ _ _ _ => False
  | .addAlias room id aliasName =>
      (∃ p ∈ w.pairsIn (.room room), p.val = id) ∧
        ∀ o ∈ w.objects id, compareStringsNocase o.name aliasName = 0 → aliasName = o.name
  | .take _ sender _ | .drop _ sender _ =>
      (w.map? (.room sender.room)).isSome = true ∧
        (w.map? (.inventory sender.user)).isSome = true
  | .roomDel room id => (w.map? (.room room)).isSome = true ∧ (w.objects id).isSome = true
  | .userDel user id => (w.map? (.inventory user)).isSome = true ∧ (w.objects id).isSome = true

instance (w : World ℕ) (op : ObjOp) : Decidable (op.InDomain w) := by
  cases op <;> unfold ObjOp.InDomain <;> infer_instance

/-- No object of the list that is going to be moved comes again later in it. -/
def ListedOnce (moves : ObjId → Bool) (l : List ObjPair) : Prop :=
  l.Pairwise fun p q => moves p.val = true → q.val ≠ p.val

/-- Some reference to the object is in another map, or is not found in this one under
any of its aliases. -/
def World.OutlivesAliases (asserts : Bool) (w : World ℕ) (c : Container) (id : ObjId) : Prop :=
  ∃ e ∈ w.maps, ∃ p ∈ e.2.pairs, p.val = id ∧
    (e.1 = c → ∀ o ∈ w.objects id, ∀ a ∈ o.aliasList, p ∉ w.listed asserts c ⟨a, some id⟩)

/-- **When an operation keeps the counts exact.** -/
def ObjOp.KeepsCounts (asserts : Bool) (w : World ℕ) (op : ObjOp) : Prop :=
  w.KeysLive ∧
    match op with
    | .add _ _ _ _ | .newAlias _ _ _ _ => True
    | .addAlias room id _ => ∀ o ∈ w.objects id, w.listed asserts (.room room) ⟨o.name, some id⟩ ≠ []
    | .take hooks sender name =>
        ListedOnce (w.asks ObjClass.hookTake hooks sender)
          (w.listed asserts (.room sender.room) ⟨name, none⟩)
    | .drop hooks sender name =>
        ListedOnce (fun _ => true) (w.listed asserts (.inventory sender.user) ⟨name, none⟩) ∧
          ∀ p ∈ w.listed asserts (.inventory sender.user) ⟨name, none⟩,
            w.asks ObjClass.hookDrop hooks sender p.val = true
    | .roomDel room id => w.OutlivesAliases asserts (.room room) id
    | .userDel user id => w.OutlivesAliases asserts (.inventory user) id

instance (moves : ObjId → Bool) (l : List ObjPair) : Decidable (ListedOnce moves l) :=
  inferInstanceAs (Decidable (List.Pairwise _ _))

instance (asserts : Bool) (w : World ℕ) (c : Container) (id : ObjId) :
    Decidable (w.OutlivesAliases asserts c id) := by
  unfold World.OutlivesAliases
  infer_instance

instance (asserts : Bool) (w : World ℕ) (op : ObjOp) : Decidable (op.KeepsCounts asserts w) := by
  cases op <;> unfold ObjOp.KeepsCounts <;> infer_instance

/-! ## Deleting an object -/

/-- A multimap stops the server without following a bad pointer. -/
theorem isBadPointer_of_run_error {m : ObjMap} {ops : List (MultimapOp ObjKey ObjId)} {e : Fault}
    (h : Runs.run (multimapStep (objEnv asserts) objCompare) m ops = .error e) :
    e.isBadPointer = false := by
  obtain ⟨m', op, hstep⟩ := Runs.exists_step_error h
  rcases multimapStep_error hstep with rfl | rfl <;> rfl

/-- An object that outlives its aliases is still referred to when all of them are
gone. -/
theorem World.OutlivesAliases.refs_pos {held : ObjId → ℕ} {w' : World ℕ} {texts : List CString}
    (h : w.OutlivesAliases asserts c id) (hw : w.Booked asserts held) (ho : w.objects id = some o)
    (htexts : texts <+: o.aliasList) (hacts : Acts asserts c id (deleteOps id texts) w w') :
    0 < w'.refs id := by
  obtain ⟨⟨c', m⟩, he, p, hp, rfl, hlisted⟩ := h
  have hm := mem_maps_iff.mp he
  refine refs_pos_of_mem (mem_cells_iff.mpr ?_)
  by_cases hc : c' = c
  · subst hc
    obtain ⟨m₀, m', hm₀, hm', hrun⟩ := hacts.map
    obtain rfl : m₀ = m := Option.some.inj (hm₀.symm.trans hm)
    refine ⟨c', m', hm', (mem_pairs_deleteOps_iff (hw.regular c' m₀ hm) hrun).mpr ⟨hp, ?_⟩⟩
    intro text htext _
    rw [← listed_eq hm]
    exact hlisted rfl o ho text (htexts.subset htext)
  · exact ⟨c', m, (hacts.others c' hc).trans hm, hp⟩

/-- **Taking an object out of a map keeps the books.** -/
theorem sat_delObjByPtr_booked {T : Fault → Prop} {m : ObjMap} (hw : w.InOrder asserts 0)
    (hm : w.map? c = some m) (hlive : (w.objects id).isSome = true)
    (hkeep : w.OutlivesAliases asserts c id) :
    Sat T (delObjByPtr asserts w c id) fun r => r.2.Booked asserts 0 := by
  obtain ⟨o, ho⟩ := Option.isSome_iff_exists.mp hlive
  refine (sat_delObjByPtr hw ho hm fun texts w' htexts hacts => ?_).mono fun r h => h.2.1
  exact Nat.add_pos_left (hkeep.refs_pos hw.toBooked ho htexts hacts) _

/-! ## Take and drop -/

/-- **Taking keeps the books**, if nothing that is moved is listed twice. -/
theorem sat_reqTake_booked {hooks : CString → ObjClass} {sender : Sender} {name : CString}
    {mr mi : ObjMap} (hw : w.InOrder asserts 0) (hmr : w.map? (.room sender.room) = some mr)
    (hmi : w.map? (.inventory sender.user) = some mi)
    (honce : ListedOnce (w.asks ObjClass.hookTake hooks sender)
      (w.listed asserts (.room sender.room) ⟨name, none⟩)) :
    Sat (fun e => e.isBadPointer = false) (reqTake asserts hooks sender name w)
      fun r => r.2.Booked asserts 0 := by
  refine sat_bind (sat_lookupObjs hw hmr) fun l hl => ?_
  rw [hl] at honce
  cases l with
  | nil => exact sat_pure hw.toBooked
  | cons p rest =>
    refine (sat_walkList (P := fun l w' =>
      Walking asserts 0 (.room sender.room) (.inventory sender.user) w l w' ∧
        ListedOnce (w.asks ObjClass.hookTake hooks sender) l)
      (fun _ _ _ h => h.1.read) ?_ (Nat.le_refl _)
      ⟨walking_listed hw hmr hmi hl, honce⟩).mono fun r h => h.1.order.toBooked
    rintro q rest w' ⟨hwalk, honce⟩
    obtain ⟨o, ho⟩ := hwalk.exists_object
    obtain ⟨mr', hmr', -⟩ := hwalk.source
    obtain ⟨mi', hmi'⟩ := hwalk.destination
    obtain ⟨hq, hrest⟩ := List.pairwise_cons.mp honce
    refine (sat_takeOne hwalk.order ho hmi' hmr'
      fun _ e he => isBadPointer_of_run_error he).mono ?_
    rintro r ⟨horder, hlive, htaken, hsame⟩
    refine ⟨rest, rfl, Nat.le_refl _, ?_, hrest⟩
    cases hallow : allows (hooks o.cls).hookTake q.val sender with
    | true =>
      refine hwalk.move (by simp) ho (htaken hallow) horder hlive fun q' hq' => hq q' hq' ?_
      rw [asks_eq hwalk.descr ObjClass.hookTake hooks sender ho]
      exact hallow
    | false =>
      rw [hsame hallow]
      exact hwalk.skip

/-- **Dropping keeps the books**, if nothing is listed twice and nothing refused. -/
theorem sat_reqDrop_booked {hooks : CString → ObjClass} {sender : Sender} {name : CString}
    {mr mi : ObjMap} (hw : w.InOrder asserts 0) (hmr : w.map? (.room sender.room) = some mr)
    (hmi : w.map? (.inventory sender.user) = some mi)
    (honce : ListedOnce (fun _ => true)
      (w.listed asserts (.inventory sender.user) ⟨name, none⟩))
    (hallowed : ∀ p ∈ w.listed asserts (.inventory sender.user) ⟨name, none⟩,
      w.asks ObjClass.hookDrop hooks sender p.val = true) :
    Sat (fun e => e.isBadPointer = false) (reqDrop asserts hooks sender name w)
      fun r => r.2.Booked asserts 0 := by
  simp only [reqDrop, hmi]
  refine sat_bind (sat_lookupObjs hw hmi) fun l hl => ?_
  rw [hl] at honce hallowed
  cases l with
  | nil => exact sat_pure hw.toBooked
  | cons p rest =>
    refine (sat_walkList (P := fun l w' =>
      Walking asserts 0 (.inventory sender.user) (.room sender.room) w l w' ∧
        ListedOnce (fun _ => true) l ∧
        ∀ q ∈ l, w.asks ObjClass.hookDrop hooks sender q.val = true)
      (fun _ _ _ h => h.1.read) ?_ (Nat.le_refl _)
      ⟨walking_listed hw hmi hmr hl, honce, hallowed⟩).mono fun r h => h.1.order.toBooked
    rintro q rest w' ⟨hwalk, honce, hallowed⟩
    obtain ⟨o, ho⟩ := hwalk.exists_object
    obtain ⟨mi', hmi', -⟩ := hwalk.source
    obtain ⟨mr', hmr'⟩ := hwalk.destination
    obtain ⟨hq, hrest⟩ := List.pairwise_cons.mp honce
    have hallow : allows (hooks o.cls).hookDrop q.val sender = true := by
      rw [← asks_eq hwalk.descr ObjClass.hookDrop hooks sender ho]
      exact hallowed q (List.mem_cons_self ..)
    refine (sat_dropOne hwalk.order ho hmi' hmr' (fun e he => isBadPointer_of_run_error he)
      fun _ _ e _ he => isBadPointer_of_run_error he).mono ?_
    rintro r ⟨hlive, hdropped, -⟩
    obtain ⟨horder, hmoved⟩ := hdropped hallow
    exact ⟨rest, rfl, Nat.le_refl _,
      hwalk.move (by simp) ho hmoved horder hlive fun q' hq' => hq q' hq' rfl, hrest,
      fun q' hq' => hallowed q' (List.mem_cons_of_mem _ hq')⟩

/-! ## Runs -/

/-- **One operation** that keeps the counts keeps the books, and follows no bad
pointer. -/
theorem sat_objStep_booked {op : ObjOp} (hw : w.Booked asserts 0) (hd : op.InDomain w)
    (hg : op.KeepsCounts asserts w) :
    Sat (fun e => e.isBadPointer = false) (objStep asserts classes w op)
      fun w' => w'.Booked asserts 0 := by
  obtain ⟨hkeys, hg⟩ := hg
  have horder : w.InOrder asserts 0 := ⟨hw, hkeys⟩
  cases op with
  | add room cls name aliasList =>
    obtain ⟨m, hm⟩ := Option.isSome_iff_exists.mp hd.1
    refine sat_bind (sat_objNew horder rfl) ?_
    rintro ⟨id, w₁⟩ ⟨-, hw₁, ho, -, hmaps⟩
    have hm₁ : w₁.map? (.room room) = some m := by rwa [World.map?, hmaps]
    refine sat_bind (sat_roomObjAdd hw₁ ho hm₁ fun e he => isBadPointer_of_run_error he) ?_
    rintro r ⟨-, hw₂, -⟩
    exact sat_pure hw₂.toBooked
  | newAlias room cls name aliasName => exact hd.elim
  | addAlias room id aliasName =>
    obtain ⟨⟨p, hp, rfl⟩, -⟩ := hd
    obtain ⟨o, ho⟩ := hw.exists_object
      (Nat.add_pos_left (refs_pos_of_mem (mem_cells_of_mem_pairsIn hp)) _)
    cases hm : w.map? (.room room) with
    | none => simp [World.pairsIn, hm] at hp
    | some m =>
      have hfound := hg o ho
      rw [listed_eq hm] at hfound
      refine sat_map ((sat_roomObjAddAlias_of_found horder ho hm hfound fun _ e he => ?_).mono
        fun r h => h.1.toBooked)
      rcases hashResize_error (multimapInsert_error he).2 with rfl | rfl <;> rfl
  | take hooks sender name =>
    obtain ⟨mr, hmr⟩ := Option.isSome_iff_exists.mp hd.1
    obtain ⟨mi, hmi⟩ := Option.isSome_iff_exists.mp hd.2
    exact sat_map (sat_reqTake_booked horder hmr hmi hg)
  | drop hooks sender name =>
    obtain ⟨mr, hmr⟩ := Option.isSome_iff_exists.mp hd.1
    obtain ⟨mi, hmi⟩ := Option.isSome_iff_exists.mp hd.2
    exact sat_map (sat_reqDrop_booked horder hmr hmi hg.1 hg.2)
  | roomDel room id =>
    obtain ⟨m, hm⟩ := Option.isSome_iff_exists.mp hd.1
    exact sat_map (sat_delObjByPtr_booked horder hm hd.2 hg)
  | userDel user id =>
    obtain ⟨m, hm⟩ := Option.isSome_iff_exists.mp hd.1
    exact sat_map (sat_delObjByPtr_booked horder hm hd.2 hg)

/-- Counts that are numbers are exact along a run. -/
theorem countsExact_of_keepsCounts (asserts : Bool) (classes : List CString)
    (sizes : List (Container × ℕ)) (distinct : (sizes.map Prod.fst).Nodup) (ops : List ObjOp)
    (h : Runs.EachStep (objStep asserts classes)
      (fun w op => op.InDomain w ∧ op.KeepsCounts asserts w) (World.init sizes distinct) ops) :
    Runs.Always (objStep asserts classes) World.CountsExact (World.init sizes distinct) ops ∧
      ∀ e, Runs.run (objStep asserts classes) (World.init sizes distinct : World ℕ) ops = .error e →
        e.isBadPointer = false := by
  obtain ⟨halways, herror⟩ := Runs.sat_always
    (fun w op hw hg => sat_objStep_booked hw hg.1 hg.2) (booked_init asserts sizes distinct) h
  exact ⟨halways.mono fun w hw => hw.countsExact, herror⟩

/-- **Reference counts along a run.**  From a server without objects, as long as every
operation keeps the counts and no counter comes around, the counts are exact in every
state reached, and the run does not stop at a bad pointer. -/
theorem refCounts_exact_of_keepsCounts (asserts : Bool) (classes : List CString)
    (sizes : List (Container × ℕ)) (distinct : (sizes.map Prod.fst).Nodup) (ops : List ObjOp)
    (h : Runs.EachStep (objStep asserts classes)
      (fun (w : World UInt32) op =>
        op.InDomain w.toNat ∧ op.KeepsCounts asserts w.toNat ∧ op.Fits asserts w)
      (World.init sizes distinct) ops) :
    Runs.Always (objStep asserts classes) World.RefCountsExact (World.init sizes distinct) ops ∧
      ∀ e, Runs.run (objStep asserts classes) (World.init sizes distinct : World UInt32) ops = .error e →
        e.isBadPointer = false := by
  have hstep : ∀ (w : World UInt32) (v : World ℕ) (op : ObjOp), Tracks noMore w v →
      op.InDomain w.toNat ∧ op.KeepsCounts asserts w.toNat ∧ op.Fits asserts w →
        Agree (Tracks noMore) (objStep asserts classes w op) (objStep asserts classes v op) :=
    fun _ _ _ hwv hg => hwv.agree_objStep classes hg.2.2
  have hinit := tracks_init sizes distinct
  obtain ⟨halways, herror⟩ := countsExact_of_keepsCounts asserts classes sizes distinct ops
    (Runs.agree_eachStep hstep (fun _ _ _ hwv hg => hwv.eq ▸ ⟨hg.1, hg.2.1⟩) hinit h)
  refine ⟨Runs.always_of_agree hstep (fun w v hwv hv => ?_) hinit h halways, fun e he => ?_⟩
  · rw [← hwv.eq] at hv
    exact hv.refCountsExact
  · exact herror e ((Runs.agree_run hstep hinit h).error_of_eq he)

/-! ## A drop that is refused -/

/-- A room and a user. -/
def roomAndUser : World UInt32 :=
  World.init [(.room 0, 32), (.inventory (letter 117), 32)] (by decide)

/-- An object is added to the room, taken, and dropped again; the hook that is asked
about a drop answers `answer`. -/
def takeAndDrop (answer : Bool) : List ObjOp :=
  let hooks := fun _ => ⟨none, some fun _ _ => answer⟩
  let sender := ⟨letter 117, 0⟩
  [.add 0 (letter 99) (letter 120) [],
    .take hooks sender (letter 120),
    .drop hooks sender (letter 120)]

/-- A drop that is allowed, and then the removal of the object. -/
theorem refCounts_exact_takeAndDrop :
    Runs.Always (objStep true [letter 99]) World.RefCountsExact roomAndUser
        (takeAndDrop true ++ [.roomDel 0 1]) ∧
      ∀ e, Runs.run (objStep true [letter 99]) roomAndUser
        (takeAndDrop true ++ [.roomDel 0 1]) = .error e → e.isBadPointer = false :=
  refCounts_exact_of_keepsCounts true [letter 99] _ _ _ (by decide +kernel)

/-- A drop that is refused: one pair refers to the object, and the count is two. -/
theorem refCounts_wrong_after_refused_drop :
    Runs.EachStep (objStep true [letter 99]) (fun w op => op.InDomain w.toNat)
        roomAndUser (takeAndDrop false) ∧
      ¬ Runs.Always (objStep true [letter 99]) World.RefCountsExact roomAndUser
        (takeAndDrop false) := by
  refine ⟨by decide +kernel, fun h => ?_⟩
  have hlast : (match Runs.run (objStep true [letter 99]) roomAndUser
      (takeAndDrop false) with
    | .ok w => (w.toNat.refs 1, (w.objects 1).map Object.refcount)
    | .error _ => (0, none)) = (1, some 2) := by decide +kernel
  cases hr : Runs.run (objStep true [letter 99]) roomAndUser
      (takeAndDrop false) with
  | error e =>
    rw [hr] at hlast
    exact absurd hlast (by simp)
  | ok w =>
    rw [hr] at hlast
    obtain ⟨hrefs, hcount⟩ := Prod.mk.inj hlast
    obtain ⟨o, ho, htwo⟩ := Option.map_eq_some_iff.mp hcount
    have hexact := ((h.last hr) 1).2 o ho
    rw [htwo, hrefs] at hexact
    exact absurd hexact (by decide)

end NetCosm
