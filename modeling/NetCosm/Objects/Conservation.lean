import NetCosm.Objects.Shifts

/-!
# Take and drop conserve objects

`req_take` and `req_drop` are meant to move objects between a room and an inventory:
those listed under the name, if their hook permits, and no others; and an object that
is moved is found in its new place under each of its keys, and in its old one not at
all.  `Carried` is this, for a request.

Two things can go wrong on the way.

* **A growth.**  The map an object is inserted into may grow, and a growth may stop
  the server or lose keys (`GrowsAlong`).
* **The next cell.**  The loop reads the pointer to the next cell before it moves the
  object of this one.  If the next cell is another cell of the same object, it is freed
  by the move, and the loop goes on from freed memory (`StepsClear`).  An object gets
  two cells in one list through two keys that are equal up to case, and
  `room_obj_add_alias` lets in an alias that is the object's name in another spelling:
  it compares with the name by `strcmp`, and with the other aliases by `strcasecmp`.

`takes_and_drops_carry` is the theorem about runs: if neither happens, then every
object is in exactly one container in every state reached, and every take and every
drop of the run completes and carries what it should.

## A drop that is refused

`req_drop` moves the object first and asks the hook then.  If the hook refuses, the
object is moved back; this is two moves, and `Conserving.shiftBack` says that they
cancel.
-/

namespace NetCosm

open World

variable {asserts : Bool} {held : ObjId → ℕ} {w w' : World ℕ} {c : Container} {id : ObjId}
  {o : Object ℕ}

/-! ## The order of a walk -/

/-- The walk can take every step: when the object of a cell leaves the list, the next
cell is not one of its cells.  The number bounds the length of the list. -/
def StepsClear (leaves : ObjId → Bool) : ℕ → List ObjPair → Prop
  | 0, _ => True
  | _ + 1, [] => True
  | n + 1, p :: rest =>
      if leaves p.val = true then
        (∀ q ∈ rest.head?, q.val ≠ p.val) ∧ StepsClear leaves n (others p.val rest)
      else StepsClear leaves n rest

/-- The objects a walk comes to, in order. -/
def visits (leaves : ObjId → Bool) : ℕ → List ObjPair → List ObjId
  | 0, _ => []
  | _ + 1, [] => []
  | n + 1, p :: rest =>
      p.val :: visits leaves n (if leaves p.val = true then others p.val rest else rest)

/-- The head of a list is still its head after cells other than it have been taken
out. -/
theorem head?_others {rest : List ObjPair} (h : ∀ q ∈ rest.head?, q.val ≠ id) :
    (others id rest).head? = rest.head? := by
  cases rest with
  | nil => rfl
  | cons q rest => simp [others, h q rfl]

/-! ## What a request is meant to do -/

/-- **A request carries** the objects listed in `src` under the name, those `moves`
says, to `dst`. -/
structure Carried (asserts : Bool) (src dst : Container) (name : CString) (moves : ObjId → Bool)
    (w w' : World ℕ) : Prop where
  /-- No object is created, destroyed or changed. -/
  descr : w'.descr = w.descr
  one : w'.EachInOne
  /-- What is moved is found in `dst` under each of its keys, and in `src` under none. -/
  moved : ∀ p ∈ w.listed asserts src ⟨name, none⟩, moves p.val = true →
    (∀ text ∈ w.keysOf p.val, ∃ q ∈ w'.listed asserts dst ⟨text, none⟩, q.val = p.val) ∧
      w'.InContainer dst p.val ∧ ¬ w'.InContainer src p.val ∧
      ∀ key, ∀ q ∈ w'.listed asserts src key, q.val ≠ p.val
  /-- What is not moved is where it was. -/
  still : ∀ id, (∀ p ∈ w.listed asserts src ⟨name, none⟩, p.val = id → moves id = false) →
    ∀ c, w'.InContainer c id ↔ w.InContainer c id

/-- The state of a request that has come from `w₀`, where it was given the list `l₀`,
to `w`, and still has the cells `l` to visit. -/
structure Conserving (asserts : Bool) (src dst : Container) (moves : ObjId → Bool) (w₀ : World ℕ)
    (l₀ l : List ObjPair) (w : World ℕ) : Prop where
  walking : ∃ held, Walking asserts held src dst w₀ l w ∧ w.PrimaryStored held
  tidy : w.Tidy asserts
  sub : l ⊆ l₀
  /-- The objects of the cells that are gone from the list. -/
  moved : ∀ p ∈ l₀, moves p.val = true → (∀ q ∈ l, q.val ≠ p.val) →
    (∀ q ∈ w.pairsIn src, q.val ≠ p.val) ∧
      ∀ text ∈ w₀.keysOf p.val, ∃ q ∈ w.pairsIn dst, q.val = p.val ∧ q.key.text = text
  /-- The objects that are not to be moved, or not yet. -/
  still : ∀ id, (∀ p ∈ l₀, p.val = id → moves id = true → ∃ q ∈ l, q.val = id) →
    ∀ c, w.InContainer c id ↔ w₀.InContainer c id
  elsewhere : ∀ c, c ≠ src → c ≠ dst → ∀ id, w.InContainer c id ↔ w₀.InContainer c id

section

variable {src dst : Container} {moves : ObjId → Bool} {w₀ : World ℕ} {l₀ rest : List ObjPair}
  {p : ObjPair}

/-- Passing by a cell whose object is not to be moved. -/
theorem Conserving.skip (h : Conserving asserts src dst moves w₀ l₀ (p :: rest) w)
    (hmoves : moves p.val = false) : Conserving asserts src dst moves w₀ l₀ rest w where
  walking := by
    obtain ⟨held, hwalk, hprimary⟩ := h.walking
    exact ⟨held, hwalk.skip, hprimary⟩
  tidy := h.tidy
  sub := fun q hq => h.sub (List.mem_cons_of_mem p hq)
  moved q hq hm hgone := by
    refine h.moved q hq hm fun q' hq' => ?_
    rcases List.mem_cons.mp hq' with rfl | hq'
    · rintro heq
      rw [heq, hm] at hmoves
      exact absurd hmoves (by decide)
    · exact hgone q' hq'
  still id hid := by
    refine h.still id fun q hq hval hm => ?_
    obtain ⟨q', hq', hval'⟩ := hid q hq hval hm
    exact ⟨q', List.mem_cons_of_mem p hq', hval'⟩
  elsewhere := h.elsewhere

/-- The cells of other objects are still there to be visited after a move. -/
theorem Conserving.hasRest {texts : List CString} {ms : ObjMap}
    (h : Conserving asserts src dst moves w₀ l₀ (p :: rest) w) (hne : src ≠ dst)
    (hmoved : Moved asserts src dst p.val o texts w w')
    (hshift : Shifted asserts src dst p.val o w w') (hms : w'.map? src = some ms)
    (hcons : others p.val rest ≠ []) : ms.HasRest (others p.val rest) := by
  obtain ⟨held, hwalk, -⟩ := h.walking
  obtain ⟨m, hm, hregular, hrest⟩ := hwalk.read
  obtain ⟨md, hmd⟩ := hwalk.destination
  obtain ⟨ms', -, hms', -, hdel, -⟩ := hmoved.maps hne hm hmd
  obtain rfl : ms' = ms := Option.some.inj (hms'.symm.trans hms)
  rcases hasRest_ops (fun _ => onValue_of_mem_deleteOps) hregular hrest.tail hdel hcons with
    hall | hothers
  · obtain ⟨n, hn, hsuf⟩ := hall
    have hnone : ∀ q ∈ rest, q.val ≠ p.val := fun q hq =>
      hshift.gone q (pairsIn_eq hms ▸ mem_pairs_iff.mpr ⟨n, hn, hsuf.subset hq⟩)
    rw [others_eq_self hnone]
    exact ⟨n, hn, hsuf⟩
  · exact hothers

/-- What has been moved stays moved while another object is. -/
theorem Conserving.moved_others (h : Conserving asserts src dst moves w₀ l₀ (p :: rest) w)
    (hrest : ∀ c q, q.val ≠ p.val → (q ∈ w'.pairsIn c ↔ q ∈ w.pairsIn c)) {q : ObjPair}
    (hq : q ∈ l₀) (hm : moves q.val = true) (hgone : ∀ q' ∈ others p.val rest, q'.val ≠ q.val)
    (hqp : q.val ≠ p.val) :
    (∀ q' ∈ w'.pairsIn src, q'.val ≠ q.val) ∧
      ∀ text ∈ w₀.keysOf q.val, ∃ q' ∈ w'.pairsIn dst, q'.val = q.val ∧ q'.key.text = text := by
  obtain ⟨hsrc, hdst⟩ := h.moved q hq hm fun q' hq' => by
    rcases List.mem_cons.mp hq' with rfl | hq'
    · exact Ne.symm hqp
    · by_cases heq : q'.val = p.val
      · exact fun h => hqp (h.symm.trans heq)
      · exact hgone q' (mem_others_iff.mpr ⟨hq', heq⟩)
  refine ⟨fun q' hq' hval => ?_, fun text htext => ?_⟩
  · exact hsrc q' ((hrest src q' (by rwa [hval])).mp hq') hval
  · obtain ⟨q', hq', hval, hkey⟩ := hdst text htext
    exact ⟨q', (hrest dst q' (by rwa [hval])).mpr hq', hval, hkey⟩

/-- What was where it had been is so still while another object is moved. -/
theorem Conserving.still_others (h : Conserving asserts src dst moves w₀ l₀ (p :: rest) w)
    (hrest : ∀ c q, q.val ≠ p.val → (q ∈ w'.pairsIn c ↔ q ∈ w.pairsIn c))
    (hid : ∀ q ∈ l₀, q.val = id → moves id = true → ∃ q' ∈ others p.val rest, q'.val = id)
    (hne : id ≠ p.val) (c : Container) : w'.InContainer c id ↔ w₀.InContainer c id := by
  have hsame : w'.InContainer c id ↔ w.InContainer c id := by
    constructor
    · rintro ⟨q, hq, rfl⟩
      exact ⟨q, (hrest c q hne).mp hq, rfl⟩
    · rintro ⟨q, hq, rfl⟩
      exact ⟨q, (hrest c q hne).mpr hq, rfl⟩
  rw [hsame]
  refine h.still id (fun q hq hval hm => ?_) c
  obtain ⟨q', hq', hval'⟩ := hid q hq hval hm
  exact ⟨q', List.mem_cons_of_mem p (mem_others_iff.mp hq').1, hval'⟩

/-- **Moving an object that is to be moved.** -/
theorem Conserving.shift {texts : List CString} (hne : src ≠ dst)
    (h : Conserving asserts src dst moves w₀ l₀ (p :: rest) w) (hmoves : moves p.val = true)
    (ho : w.objects p.val = some o) (hmoved : Moved asserts src dst p.val o texts w w')
    (hshift : Shifted asserts src dst p.val o w w')
    (hwalk : Walking asserts held src dst w₀ (p :: rest) w) (hprimary : w.PrimaryStored held)
    (horder : w'.InOrder asserts held) :
    Conserving asserts src dst moves w₀ l₀ (others p.val rest) w' where
  walking := by
    obtain ⟨m, hm, -⟩ := hwalk.read
    obtain ⟨md, hmd⟩ := hwalk.destination
    obtain ⟨ms', md', hms', hmd', -⟩ := hmoved.maps hne hm hmd
    exact ⟨held, ⟨horder, hshift.descr.trans hwalk.descr,
      ⟨ms', hms', h.hasRest hne hmoved hshift hms'⟩, md', hmd'⟩,
      hshift.primaryStored ho hprimary⟩
  tidy := hshift.tidy
  sub := fun q hq => h.sub (List.mem_cons_of_mem p (mem_others_iff.mp hq).1)
  moved q hq hm hgone := by
    by_cases hqp : q.val = p.val
    · rw [hqp, keysOf_eq hwalk.descr ho]
      exact ⟨hshift.gone, hshift.arrived⟩
    · exact h.moved_others hshift.rest hq hm hgone hqp
  still id hid := by
    refine h.still_others hshift.rest hid ?_
    rintro rfl
    obtain ⟨q, hq, hval⟩ := hid p (h.sub (List.mem_cons_self ..)) rfl hmoves
    exact (mem_others_iff.mp hq).2 hval
  elsewhere c hsrc hdst id := by
    rw [World.InContainer, hshift.elsewhere c hsrc hdst]
    exact h.elsewhere c hsrc hdst id

/-- **Moving an object and moving it back.** -/
theorem Conserving.shiftBack {texts texts' : List CString} {w₁ : World ℕ} (hne : src ≠ dst)
    (h : Conserving asserts src dst moves w₀ l₀ (p :: rest) w) (hmoves : moves p.val = false)
    (hone : w₀.EachInOne) (hlisted : p ∈ w₀.pairsIn src)
    (ho : w.objects p.val = some o) (hmoved : Moved asserts src dst p.val o texts w w₁)
    (hshift : Shifted asserts src dst p.val o w w₁)
    (hmoved' : Moved asserts dst src p.val o texts' w₁ w')
    (hshift' : Shifted asserts dst src p.val o w₁ w')
    (hwalk : Walking asserts held src dst w₀ (p :: rest) w) (hprimary : w.PrimaryStored held)
    (horder : w'.InOrder asserts (held + Pi.single p.val 1)) :
    Conserving asserts src dst moves w₀ l₀ (others p.val rest) w' := by
  obtain ⟨m, hm, -⟩ := hwalk.read
  obtain ⟨md, hmd⟩ := hwalk.destination
  obtain ⟨ms₁, md₁, hms₁, hmd₁, -⟩ := hmoved.maps hne hm hmd
  obtain ⟨md', ms', hmd', hms', -, hins⟩ := hmoved'.maps (Ne.symm hne) hmd₁ hms₁
  obtain ⟨n, ho₁⟩ := exists_object_of_descr (congrFun hshift.descr p.val).symm ho
  have hrest : ∀ c q, q.val ≠ p.val → (q ∈ w'.pairsIn c ↔ q ∈ w.pairsIn c) := fun c q hq =>
    (hshift'.rest c q hq).trans (hshift.rest c q hq)
  refine ⟨⟨_, ⟨horder, (hshift'.descr.trans hshift.descr).trans hwalk.descr,
      ⟨ms', hms', fun hcons => ?_⟩, md', hmd'⟩, fun c x ox hox hin => ?_⟩, hshift'.tidy,
    fun q hq => h.sub (List.mem_cons_of_mem p (mem_others_iff.mp hq).1),
    fun q hq hq' hgone => h.moved_others hrest hq hq' hgone ?_, fun x hx => ?_,
    fun c hsrc hdst x => ?_⟩
  · have hrest₁ := h.hasRest hne hmoved hshift hms₁ hcons
    have hregular := (hshift.tidy.sound src ms₁ hms₁).toRegular
    have hkept := hasRest_ops (fun _ => onValue_of_mem_insertOps) hregular hrest₁ hins
      (by rwa [others_others])
    rwa [others_others, or_self] at hkept
  · refine (hshift'.primaryStored ho₁ (hshift.primaryStored ho hprimary) c x ox hox hin).imp_right
      fun hpos => Nat.add_pos_left hpos _
  · rintro heq
    rw [← heq, hq'] at hmoves
    exact absurd hmoves (by decide)
  · by_cases hxp : x = p.val
    · subst hxp
      intro c
      have hin₀ : w₀.InContainer src p.val := ⟨p, hlisted, rfl⟩
      obtain ⟨k, ho₀⟩ := exists_object_of_descr (congrFun hwalk.descr p.val) ho
      have huniq := hone p.val (by rw [ho₀]; rfl)
      by_cases hsrc : c = src
      · subst hsrc
        exact iff_of_true hshift'.inContainer_dst hin₀
      · by_cases hdst : c = dst
        · subst hdst
          refine iff_of_false (fun hin => ?_) fun hin => hsrc (huniq.unique hin hin₀)
          obtain ⟨q, hq, hval⟩ := hin
          exact hshift'.gone q hq hval
        · rw [World.InContainer, hshift'.elsewhere c hdst hsrc, hshift.elsewhere c hsrc hdst]
          exact h.elsewhere c hsrc hdst p.val
    · exact h.still_others hrest hx hxp
  · rw [World.InContainer, hshift'.elsewhere c hdst hsrc, hshift.elsewhere c hsrc hdst]
    exact h.elsewhere c hsrc hdst x

theorem mem_pairsIn_of_mem_listed {key : ObjKey} (h : p ∈ w.listed asserts c key) :
    p ∈ w.pairsIn c := by
  cases hm : w.map? c with
  | none => simp [World.listed, hm] at h
  | some m =>
    rw [pairsIn_eq hm]
    rw [listed_eq hm] at h
    exact mem_pairs_of_mem_lookup h

/-- A world between requests. -/
structure World.Settled (asserts : Bool) (w : World ℕ) : Prop where
  order : ∃ held, w.InOrder asserts held ∧ w.PrimaryStored held
  tidy : w.Tidy asserts
  one : w.EachInOne

/-- Before the first cell is visited. -/
theorem conserving_start (moves : ObjId → Bool) {name : CString} {ms md : ObjMap}
    (hw : w.Settled asserts)
    (hms : w.map? src = some ms) (hmd : w.map? dst = some md)
    (hl : w.listed asserts src ⟨name, none⟩ = l₀) :
    Conserving asserts src dst moves w l₀ l₀ w where
  walking := by
    obtain ⟨held, horder, hprimary⟩ := hw.order
    cases l₀ with
    | nil => exact ⟨held, ⟨horder, rfl, ⟨ms, hms, fun h => absurd rfl h⟩, md, hmd⟩, hprimary⟩
    | cons p rest => exact ⟨held, walking_listed horder hms hmd hl, hprimary⟩
  tidy := hw.tidy
  sub := List.Subset.refl l₀
  moved q hq _ hgone := absurd rfl (hgone q hq)
  still _ _ _ := Iff.rfl
  elsewhere _ _ _ _ := Iff.rfl

/-- An object that is somewhere is live. -/
theorem World.Settled.exists_object {p : ObjPair} (hw : w.Settled asserts)
    (hp : p ∈ w.pairsIn c) : ∃ o, w.objects p.val = some o := by
  obtain ⟨held, horder, -⟩ := hw.order
  exact horder.exists_object (Nat.add_pos_left (refs_pos_of_mem (mem_cells_of_mem_pairsIn hp)) _)

/-- **When the last cell has been visited**, the request has carried what it should. -/
theorem Conserving.finish {name : CString} (hw₀ : w₀.Settled asserts)
    (hl : w₀.listed asserts src ⟨name, none⟩ = l₀)
    (h : Conserving asserts src dst moves w₀ l₀ [] w) :
    w.Settled asserts ∧ Carried asserts src dst name moves w₀ w := by
  subst hl
  obtain ⟨held, hwalk, hprimary⟩ := h.walking
  have hmoved : ∀ q ∈ w₀.listed asserts src ⟨name, none⟩, moves q.val = true →
      (∀ q' ∈ w.pairsIn src, q'.val ≠ q.val) ∧
        ∀ text ∈ w₀.keysOf q.val, ∃ q' ∈ w.pairsIn dst, q'.val = q.val ∧ q'.key.text = text :=
    fun q hq hm => h.moved q hq hm (by simp)
  have hstill : ∀ id, (∀ q ∈ w₀.listed asserts src ⟨name, none⟩, q.val = id → moves id = false) →
      ∀ c, w.InContainer c id ↔ w₀.InContainer c id := fun id hid =>
    h.still id fun q hq hval hm => absurd (hid q hq hval) (by simp [hm])
  have hdst : ∀ q ∈ w₀.listed asserts src ⟨name, none⟩, moves q.val = true →
      w.InContainer dst q.val := by
    intro q hq hm
    obtain ⟨o, ho⟩ := hw₀.exists_object (mem_pairsIn_of_mem_listed hq)
    obtain ⟨q', hq', hval, -⟩ := (hmoved q hq hm).2 o.name
      (by rw [keysOf_eq rfl ho]; exact List.mem_cons_self ..)
    exact ⟨q', hq', hval⟩
  have hsrc : ∀ q ∈ w₀.listed asserts src ⟨name, none⟩, moves q.val = true →
      ¬ w.InContainer src q.val := by
    rintro q hq hm ⟨q', hq', hval⟩
    exact (hmoved q hq hm).1 q' hq' hval
  have hone : w.EachInOne := by
    intro id hlive
    obtain ⟨o, ho⟩ := Option.isSome_iff_exists.mp hlive
    obtain ⟨n, ho₀⟩ := exists_object_of_descr (congrFun hwalk.descr id).symm.symm ho
    obtain ⟨c₀, hin₀, huniq⟩ := hw₀.one id (by rw [ho₀]; rfl)
    by_cases hid : ∃ q ∈ w₀.listed asserts src ⟨name, none⟩, q.val = id ∧ moves id = true
    · obtain ⟨q, hq, rfl, hm⟩ := hid
      refine ⟨dst, hdst q hq hm, fun c hin => ?_⟩
      by_contra hne
      have hcsrc : c ≠ src := by
        rintro rfl
        exact hsrc q hq hm hin
      have hc := huniq c ((h.elsewhere c hcsrc hne q.val).mp hin)
      have hs := huniq src ⟨q, mem_pairsIn_of_mem_listed hq, rfl⟩
      exact hcsrc (hc.trans hs.symm)
    · have hsame := hstill id fun q hq hval => by
        rw [Bool.eq_false_iff]
        exact fun hm => hid ⟨q, hq, hval, hm⟩
      exact ⟨c₀, (hsame c₀).mpr hin₀, fun c hin => huniq c ((hsame c).mp hin)⟩
  refine ⟨⟨⟨held, hwalk.order, hprimary⟩, h.tidy, hone⟩, hwalk.descr, hone, fun q hq hm => ?_,
    hstill⟩
  refine ⟨fun text htext => ?_, hdst q hq hm, hsrc q hq hm, fun key q' hq' hval => ?_⟩
  · obtain ⟨q', hq', hval, htext'⟩ := (hmoved q hq hm).2 text htext
    exact ⟨q', h.tidy.mem_listed hq' htext'.symm, hval⟩
  · exact hsrc q hq hm ⟨q', mem_pairsIn_of_mem_listed hq', hval⟩

end

/-! ## The two requests -/

section

variable {hooks : CString → ObjClass} {sender : Sender} {name : CString} {mr mi : ObjMap}

/-- What `req_take` does to the inventory for an object it comes to. -/
def World.takeOps (w : World ℕ) (hooks : CString → ObjClass) (sender : Sender) (id : ObjId) :
    List (MultimapOp ObjKey ObjId) :=
  if w.asks ObjClass.hookTake hooks sender id = true then insertOps id (w.aliasesFirst id) else []

/-- What the walk of a request keeps.  Of the operations on the two maps, those for
the objects still to come are still to be done. -/
structure Carrying (asserts : Bool) (src dst : Container) (moves leaves : ObjId → Bool)
    (srcOps dstOps : ObjId → List (MultimapOp ObjKey ObjId)) (w₀ : World ℕ)
    (l₀ l : List ObjPair) (w : World ℕ) : Prop where
  conserving : Conserving asserts src dst moves w₀ l₀ l w
  clear : ∃ n, l.length ≤ n ∧ StepsClear leaves n l ∧
    w.GrowsAlong asserts src ((visits leaves n l).flatMap srcOps) ∧
    w.GrowsAlong asserts dst ((visits leaves n l).flatMap dstOps)

theorem Carrying.read {src dst : Container} {moves leaves : ObjId → Bool}
    {srcOps dstOps : ObjId → List (MultimapOp ObjKey ObjId)} {w₀ : World ℕ} {l₀ rest : List ObjPair}
    {p : ObjPair} (h : Carrying asserts src dst moves leaves srcOps dstOps w₀ l₀ (p :: rest) w) :
    ∃ m, w.map? src = some m ∧ m.Regular (objEnv asserts) ∧ m.HasRest (p :: rest) := by
  obtain ⟨held, hwalking, -⟩ := h.conserving.walking
  exact hwalking.read

/-- What is still to be done at a cell, and behind it. -/
theorem Carrying.ops {src dst : Container} {moves leaves : ObjId → Bool}
    {srcOps dstOps : ObjId → List (MultimapOp ObjKey ObjId)} {w₀ : World ℕ} {l₀ rest : List ObjPair}
    {p : ObjPair} (h : Carrying asserts src dst moves leaves srcOps dstOps w₀ l₀ (p :: rest) w)
    {rest' : List ObjPair}
    (hrest : (if leaves p.val = true then others p.val rest else rest) = rest') :
    (leaves p.val = true → ∀ q ∈ rest.head?, q.val ≠ p.val) ∧
      ∃ n, rest'.length ≤ n ∧ StepsClear leaves n rest' ∧
        w.GrowsAlong asserts src (srcOps p.val ++ (visits leaves n rest').flatMap srcOps) ∧
        w.GrowsAlong asserts dst (dstOps p.val ++ (visits leaves n rest').flatMap dstOps) := by
  obtain ⟨n, hn, hclear, hsrc, hdst⟩ := h.clear
  obtain ⟨n, rfl⟩ := Nat.exists_eq_add_of_le' (Nat.one_le_of_lt hn)
  rw [visits, List.flatMap_cons, hrest] at hsrc hdst
  rw [StepsClear] at hclear
  have hlength : rest'.length ≤ n := by
    have hle : rest'.length ≤ rest.length := by
      rw [← hrest]
      split
      · exact List.length_filter_le _ _
      · exact Nat.le_refl _
    exact hle.trans (Nat.le_of_succ_le_succ hn)
  cases hleaves : leaves p.val with
  | true =>
    rw [hleaves, if_pos rfl] at hclear hrest
    rw [hrest] at hclear
    exact ⟨fun _ => hclear.1, n, hlength, hclear.2, hsrc, hdst⟩
  | false =>
    rw [hleaves, if_neg (by decide)] at hclear hrest
    rw [hrest] at hclear
    exact ⟨fun h => absurd h (by decide), n, hlength, hclear, hsrc, hdst⟩

/-- **Taking one object**: it is moved, or passed by. -/
theorem sat_takeOne_carrying {w₀ : World ℕ} {l₀ rest : List ObjPair} {p : ObjPair}
    (h : Carrying asserts (.room sender.room) (.inventory sender.user)
      (w₀.asks ObjClass.hookTake hooks sender) (w₀.asks ObjClass.hookTake hooks sender)
      (fun _ => []) (w₀.takeOps hooks sender) w₀ l₀ (p :: rest) w) :
    Sat (fun _ => False) (takeOne asserts hooks sender w p.val) fun r =>
      ∃ rest', rest'.head? = rest.head? ∧ rest'.length ≤ rest.length ∧
        Carrying asserts (.room sender.room) (.inventory sender.user)
          (w₀.asks ObjClass.hookTake hooks sender) (w₀.asks ObjClass.hookTake hooks sender)
          (fun _ => []) (w₀.takeOps hooks sender) w₀ l₀ rest' r.2 := by
  obtain ⟨held, hwalk, hprimary⟩ := h.conserving.walking
  obtain ⟨o, ho⟩ := hwalk.exists_object
  obtain ⟨mr, hmr, -⟩ := hwalk.source
  obtain ⟨mi, hmi⟩ := hwalk.destination
  obtain ⟨hnext, n, hn, hclear, -, hdst⟩ := h.ops rfl
  have hasks := asks_eq hwalk.descr ObjClass.hookTake hooks sender ho
  have hops : w₀.takeOps hooks sender p.val =
      if allows (hooks o.cls).hookTake p.val sender = true then
        insertOps p.val (o.aliasList ++ [o.name]) else [] := by
    rw [World.takeOps, hasks, aliasesFirst_eq hwalk.descr ho]
  have hnothing : ∀ (w : World ℕ) (l : List ObjId),
      w.GrowsAlong asserts (.room sender.room) (l.flatMap fun _ => []) := by
    intro w l m _
    rw [List.flatMap_eq_nil_iff.mpr fun _ _ => rfl]
    trivial
  rw [hasks] at hnext hn hclear hdst
  rw [hops] at hdst
  cases hallow : allows (hooks o.cls).hookTake p.val sender with
  | true =>
    rw [hallow, if_pos rfl] at hn hclear hdst
    rw [hallow] at hnext
    rw [if_pos rfl] at hdst
    refine (sat_takeOne hwalk.order ho hmi hmr
      fun _ e he => hdst.left.completes h.conserving.tidy hmi he).mono ?_
    rintro r ⟨horder, hlive, htaken, -⟩
    have hmoved := htaken hallow
    have hshift := hmoved.shifted h.conserving.tidy (by simp) ho hlive
      (fun _ => mem_aliases_append_name) hdst.left
    refine ⟨others p.val rest, head?_others (hnext rfl), List.length_filter_le _ _, ?_, n, hn,
      hclear, hnothing _ _, hmoved.growsAlong_dst (by simp) hdst⟩
    exact h.conserving.shift (by simp) (hasks.trans hallow) ho hmoved hshift hwalk hprimary horder
  | false =>
    rw [hallow, if_neg (by decide)] at hn hclear hdst
    rw [if_neg (by decide), List.nil_append] at hdst
    refine (sat_takeOne hwalk.order ho hmi hmr
      fun h => absurd (hallow.symm.trans h) (by decide)).mono ?_
    rintro r ⟨-, -, -, hsame⟩
    rw [hsame hallow]
    exact ⟨rest, rfl, Nat.le_refl _, h.conserving.skip (hasks.trans hallow), n, hn, hclear,
      hnothing _ _, hdst⟩

/-- **`req_take` carries** what is listed and permitted from the room to the
inventory. -/
theorem sat_reqTake_carried (hw : w.Settled asserts)
    (hmr : w.map? (.room sender.room) = some mr)
    (hmi : w.map? (.inventory sender.user) = some mi) {n : ℕ}
    (hn : (w.listed asserts (.room sender.room) ⟨name, none⟩).length ≤ n)
    (hclear : StepsClear (w.asks ObjClass.hookTake hooks sender) n
      (w.listed asserts (.room sender.room) ⟨name, none⟩))
    (hgrow : w.GrowsAlong asserts (.inventory sender.user)
      ((visits (w.asks ObjClass.hookTake hooks sender) n
        (w.listed asserts (.room sender.room) ⟨name, none⟩)).flatMap
          (w.takeOps hooks sender))) :
    Sat (fun _ => False) (reqTake asserts hooks sender name w) fun r =>
      r.2.Settled asserts ∧
        Carried asserts (.room sender.room) (.inventory sender.user) name
          (w.asks ObjClass.hookTake hooks sender) w r.2 := by
  obtain ⟨held, horder, -⟩ := id hw.order
  refine sat_bind (sat_lookupObjs horder hmr) fun l hl => ?_
  have hstart := conserving_start (w.asks ObjClass.hookTake hooks sender) hw hmr hmi hl
  rw [hl] at hn hclear hgrow
  cases l with
  | nil => exact sat_pure (hstart.finish hw hl)
  | cons p rest =>
    have hnothing : w.GrowsAlong asserts (.room sender.room)
        ((visits (w.asks ObjClass.hookTake hooks sender) n (p :: rest)).flatMap fun _ => []) := by
      intro m _
      rw [List.flatMap_eq_nil_iff.mpr fun _ _ => rfl]
      trivial
    have hcarry : Carrying asserts (.room sender.room) (.inventory sender.user)
        (w.asks ObjClass.hookTake hooks sender) (w.asks ObjClass.hookTake hooks sender)
        (fun _ => []) (w.takeOps hooks sender) w (p :: rest) (p :: rest) w :=
      ⟨hstart, n, hn, hclear, hnothing, hgrow⟩
    refine (sat_walkList (fun _ _ _ => Carrying.read) (fun _ _ _ => sat_takeOne_carrying)
      (Nat.le_refl _) hcarry).mono fun r hr => hr.conserving.finish hw hl

/-- What `req_drop` does to the room for an object it comes to. -/
def World.dropRoomOps (w : World ℕ) (hooks : CString → ObjClass) (sender : Sender) (id : ObjId) :
    List (MultimapOp ObjKey ObjId) :=
  insertOps id (w.keysOf id) ++
    if w.asks ObjClass.hookDrop hooks sender id = true then [] else deleteOps id (w.aliasesFirst id)

/-- What `req_drop` does to the inventory for an object it comes to. -/
def World.dropInventoryOps (w : World ℕ) (hooks : CString → ObjClass) (sender : Sender)
    (id : ObjId) : List (MultimapOp ObjKey ObjId) :=
  deleteOps id (w.aliasesFirst id) ++
    if w.asks ObjClass.hookDrop hooks sender id = true then [] else insertOps id (w.aliasesFirst id)

/-- **Dropping one object**: it is moved, and perhaps moved back. -/
theorem sat_dropOne_carrying {w₀ : World ℕ} {l₀ rest : List ObjPair} {p : ObjPair}
    (hone : w₀.EachInOne) (hlisted : ∀ q ∈ l₀, q ∈ w₀.pairsIn (.inventory sender.user))
    (h : Carrying asserts (.inventory sender.user) (.room sender.room)
      (w₀.asks ObjClass.hookDrop hooks sender) (fun _ => true)
      (w₀.dropInventoryOps hooks sender) (w₀.dropRoomOps hooks sender) w₀ l₀ (p :: rest) w) :
    Sat (fun _ => False) (dropOne asserts hooks sender w p.val) fun r =>
      ∃ rest', rest'.head? = rest.head? ∧ rest'.length ≤ rest.length ∧
        Carrying asserts (.inventory sender.user) (.room sender.room)
          (w₀.asks ObjClass.hookDrop hooks sender) (fun _ => true)
          (w₀.dropInventoryOps hooks sender) (w₀.dropRoomOps hooks sender) w₀ l₀ rest' r.2 := by
  obtain ⟨held, hwalk, hprimary⟩ := h.conserving.walking
  obtain ⟨o, ho⟩ := hwalk.exists_object
  obtain ⟨mi, hmi, -⟩ := hwalk.source
  obtain ⟨mr, hmr⟩ := hwalk.destination
  obtain ⟨hnext, n, hn, hclear, hsrc, hdst⟩ := h.ops (if_pos rfl)
  have htidy := h.conserving.tidy
  have hasks := asks_eq hwalk.descr ObjClass.hookDrop hooks sender ho
  rw [World.dropInventoryOps, hasks, aliasesFirst_eq hwalk.descr ho, List.append_assoc] at hsrc
  rw [World.dropRoomOps, hasks, keysOf_eq hwalk.descr ho, aliasesFirst_eq hwalk.descr ho,
    List.append_assoc] at hdst
  cases hallow : allows (hooks o.cls).hookDrop p.val sender with
  | true =>
    rw [hallow, if_pos rfl, List.nil_append] at hsrc hdst
    refine (sat_dropOne hwalk.order ho hmi hmr
      (fun e he => hdst.left.completes htidy hmr he)
      fun h => absurd (hallow.symm.trans h) (by decide)).mono ?_
    rintro r ⟨hlive, hdropped, -⟩
    obtain ⟨horder, hmoved⟩ := hdropped hallow
    have hshift := hmoved.shifted htidy (by simp) ho hlive (fun _ => Iff.rfl) hdst.left
    refine ⟨others p.val rest, head?_others (hnext rfl), List.length_filter_le _ _, ?_, n, hn,
      hclear, hmoved.growsAlong_src (by simp) hsrc, hmoved.growsAlong_dst (by simp) hdst⟩
    exact h.conserving.shift (by simp) (hasks.trans hallow) ho hmoved hshift hwalk hprimary horder
  | false =>
    rw [hallow, if_neg (by decide)] at hsrc hdst
    refine (sat_dropOne hwalk.order ho hmi hmr
      (fun e he => hdst.left.completes htidy hmr he) fun _ m' e hdel he => ?_).mono ?_
    · rw [← List.append_assoc] at hsrc
      refine hsrc.left.completes (e := e) htidy hmi ?_
      rw [Runs.run_append_ok hdel]
      exact he
    rintro r ⟨hlive, -, hrefused⟩
    obtain ⟨horder, w₁, hmoved, hback⟩ := hrefused hallow
    obtain ⟨u, hu₁, hu₂⟩ := hback.between
    obtain ⟨o₂, ho₂⟩ := Option.isSome_iff_exists.mp hlive
    obtain ⟨o₁, ho₁, -⟩ := hu₂.object o₂ ho₂
    obtain ⟨o', ho', -⟩ := hu₁.object o₁ ho₁
    have hshift := hmoved.shifted htidy (by simp) ho (by rw [ho']; rfl) (fun _ => Iff.rfl) hdst.left
    obtain ⟨k, ho₃⟩ := exists_object_of_descr (congrFun hshift.descr p.val).symm ho
    have hsrc₁ := hmoved.growsAlong_src (by simp) hsrc
    have hdst₁ := hmoved.growsAlong_dst (by simp) hdst
    have hshift' := hback.shifted hshift.tidy (by simp) ho₃ hlive
      (fun _ => mem_aliases_append_name) hsrc₁.left
    refine ⟨others p.val rest, head?_others (hnext rfl), List.length_filter_le _ _, ?_, n, hn,
      hclear, hback.growsAlong_dst (by simp) hsrc₁, hback.growsAlong_src (by simp) hdst₁⟩
    exact h.conserving.shiftBack (by simp) (hasks.trans hallow) hone
      (hlisted p (h.conserving.sub (List.mem_cons_self ..))) ho hmoved hshift hback hshift' hwalk
      hprimary horder

/-- **`req_drop` carries** what is listed and permitted from the inventory to the
room. -/
theorem sat_reqDrop_carried (hw : w.Settled asserts)
    (hmr : w.map? (.room sender.room) = some mr)
    (hmi : w.map? (.inventory sender.user) = some mi) {n : ℕ}
    (hn : (w.listed asserts (.inventory sender.user) ⟨name, none⟩).length ≤ n)
    (hclear : StepsClear (fun _ => true) n
      (w.listed asserts (.inventory sender.user) ⟨name, none⟩))
    (hsrc : w.GrowsAlong asserts (.inventory sender.user)
      ((visits (fun _ => true) n
        (w.listed asserts (.inventory sender.user) ⟨name, none⟩)).flatMap
          (w.dropInventoryOps hooks sender)))
    (hdst : w.GrowsAlong asserts (.room sender.room)
      ((visits (fun _ => true) n
        (w.listed asserts (.inventory sender.user) ⟨name, none⟩)).flatMap
          (w.dropRoomOps hooks sender))) :
    Sat (fun _ => False) (reqDrop asserts hooks sender name w) fun r =>
      r.2.Settled asserts ∧
        Carried asserts (.inventory sender.user) (.room sender.room) name
          (w.asks ObjClass.hookDrop hooks sender) w r.2 := by
  obtain ⟨held, horder, -⟩ := id hw.order
  simp only [reqDrop, hmi]
  refine sat_bind (sat_lookupObjs horder hmi) fun l hl => ?_
  have hstart := conserving_start (w.asks ObjClass.hookDrop hooks sender) hw hmi hmr hl
  have hlisted : ∀ q ∈ l, q ∈ w.pairsIn (.inventory sender.user) := fun q hq =>
    mem_pairsIn_of_mem_listed (hl.symm ▸ hq)
  rw [hl] at hn hclear hsrc hdst
  cases l with
  | nil => exact sat_pure (hstart.finish hw hl)
  | cons p rest =>
    have hcarry : Carrying asserts (.inventory sender.user) (.room sender.room)
        (w.asks ObjClass.hookDrop hooks sender) (fun _ => true) (w.dropInventoryOps hooks sender)
        (w.dropRoomOps hooks sender) w (p :: rest) (p :: rest) w :=
      ⟨hstart, n, hn, hclear, hsrc, hdst⟩
    refine (sat_walkList (fun _ _ _ => Carrying.read)
      (fun _ _ _ => sat_dropOne_carrying hw.one hlisted) (Nat.le_refl _) hcarry).mono
      fun r hr => hr.conserving.finish hw hl

end

end NetCosm
