import NetCosm.Objects.Additions
import NetCosm.Objects.Walking
import NetCosm.Table.MultimapGrowth

/-!
# Where objects are

An object is in a container if some pair of its map refers to it, and that is all
this file knows of maps: `pairsIn` before and after an operation.

What is found under a key is another matter, and `Tidy` is what connects the two.
In a tidy world every map is sound, so that a pair is found under its own key, and
every pair is under a key its object has.  Deleting an object under all its keys
then deletes all its pairs (`Acts.mem_pairsIn_delete`), and an object that is moved
is gone from where it was (`Moved.shifted`).

The object moved is described by `Shifted`, and all others by "the pairs are the
same ones".
-/

namespace NetCosm

open World

variable {asserts : Bool} {w w' : World ℕ} {c : Container} {id : ObjId} {o : Object ℕ}

namespace World

/-- The strings of an object, in the order `room_obj_add` stores them. -/
def keysOf (w : World ℕ) (id : ObjId) : List CString :=
  match w.objects id with
  | some o => o.keys
  | none => []

/-- The strings of an object, in the order `userdb_add_obj` stores them. -/
def aliasesFirst (w : World ℕ) (id : ObjId) : List CString :=
  match w.objects id with
  | some o => o.aliasList ++ [o.name]
  | none => []

/-- Some pair in the map of the container refers to the object. -/
def InContainer (w : World ℕ) (c : Container) (id : ObjId) : Prop := ∃ p ∈ w.pairsIn c, p.val = id

/-- Every object is in exactly one container. -/
def EachInOne (w : World ℕ) : Prop :=
  ∀ id, (w.objects id).isSome = true → ∃! c, w.InContainer c id

/-- Where an object is, it is under its name; or else a reference to it is held that
belongs to nobody. -/
def PrimaryStored (held : ObjId → ℕ) (w : World ℕ) : Prop :=
  ∀ c id o, w.descr id = some o → w.InContainer c id →
    (∃ p ∈ w.pairsIn c, p.val = id ∧ p.key.text = o.name) ∨ 0 < held id

/-- Maps are sound, and objects are stored under keys they have. -/
structure Tidy (asserts : Bool) (w : World ℕ) : Prop where
  sound : ∀ c m, w.map? c = some m → m.Sound (objEnv asserts)
  named : ∀ c, ∀ p ∈ w.pairsIn c, ∀ o, w.descr p.val = some o → p.key.text ∈ o.keys

end World

theorem exists_map_of_mem_pairsIn {p : ObjPair} (h : p ∈ w.pairsIn c) :
    ∃ m, w.map? c = some m ∧ p ∈ m.pairs := by
  cases hm : w.map? c with
  | none => simp [World.pairsIn, hm] at h
  | some m => exact ⟨m, rfl, pairsIn_eq hm ▸ h⟩

/-- **In a tidy world a pair is found under the text of its key.** -/
theorem World.Tidy.mem_listed (hw : w.Tidy asserts) {p : ObjPair} (hp : p ∈ w.pairsIn c)
    {key : ObjKey} (hkey : key.text = p.key.text) : p ∈ w.listed asserts c key := by
  obtain ⟨m, hm, hpm⟩ := exists_map_of_mem_pairsIn hp
  rw [listed_eq hm, (hw.sound c m hm).mem_lookup_iff (objEnv_equivalence asserts)]
  refine ⟨hpm, objEnv_same_iff.mpr (by rw [hkey]), ?_⟩
  simp only [HashEnv.bucket, objEnv, hkey]

theorem mem_aliases_append_name {text : CString} :
    text ∈ o.aliasList ++ [o.name] ↔ text ∈ o.keys := by
  rw [Object.keys, List.mem_append, List.mem_singleton, List.mem_cons, or_comm]

theorem keysOf_eq {w₀ : World ℕ} (h : w.descr = w₀.descr) (ho : w.objects id = some o) :
    w₀.keysOf id = o.keys := by
  obtain ⟨n, ho₀⟩ := exists_object_of_descr (congrFun h id) ho
  rw [World.keysOf, ho₀]
  rfl

theorem aliasesFirst_eq {w₀ : World ℕ} (h : w.descr = w₀.descr) (ho : w.objects id = some o) :
    w₀.aliasesFirst id = o.aliasList ++ [o.name] := by
  obtain ⟨n, ho₀⟩ := exists_object_of_descr (congrFun h id) ho
  rw [World.aliasesFirst, ho₀]

/-! ## One map -/

/-- The map of the container grows well along the operations. -/
def World.GrowsAlong (asserts : Bool) (w : World ℕ) (c : Container)
    (ops : List (MultimapOp ObjKey ObjId)) : Prop :=
  ∀ m ∈ w.map? c, Runs.EachStep (multimapStep (objEnv asserts) objCompare)
    (Multimap.GrowsWell (objEnv asserts)) m ops

/-- A map that grows well completes its operations. -/
theorem World.GrowsAlong.completes {ops : List (MultimapOp ObjKey ObjId)} {m : ObjMap}
    (h : w.GrowsAlong asserts c ops) (hw : w.Tidy asserts) (hm : w.map? c = some m) {e : Fault} :
    Runs.run (multimapStep (objEnv asserts) objCompare) m ops ≠ .error e := by
  obtain ⟨m', hrun, -⟩ :=
    sound_run_of_growsWell (objEnv_equivalence asserts) (hw.sound c m hm) (h m hm)
  rw [hrun]
  simp

theorem World.GrowsAlong.left {ops ops' : List (MultimapOp ObjKey ObjId)}
    (h : w.GrowsAlong asserts c (ops ++ ops')) : w.GrowsAlong asserts c ops :=
  fun m hm => (Runs.eachStep_append_iff.mp (h m hm)).1

/-- The rest of the operations, where the first have been done. -/
theorem World.GrowsAlong.right {ops ops' : List (MultimapOp ObjKey ObjId)}
    (h : w.GrowsAlong asserts c (ops ++ ops')) (hacts : Acts asserts c id ops w w') :
    w'.GrowsAlong asserts c ops' := by
  intro m' hm'
  obtain ⟨m, m₁, hm, hm₁, hrun⟩ := hacts.map
  obtain rfl : m₁ = m' := Option.some.inj (hm₁.symm.trans hm')
  exact (Runs.eachStep_append_iff.mp (h m hm)).2 m₁ hrun

theorem World.GrowsAlong.of_map_eq {ops : List (MultimapOp ObjKey ObjId)}
    (h : w.GrowsAlong asserts c ops) (hmap : w'.map? c = w.map? c) :
    w'.GrowsAlong asserts c ops := by
  unfold World.GrowsAlong
  rw [hmap]
  exact h

/-- A map that went through operations that grow well is sound. -/
theorem Acts.sound {ops : List (MultimapOp ObjKey ObjId)} (h : Acts asserts c id ops w w')
    (hw : ∀ c m, w.map? c = some m → m.Sound (objEnv asserts))
    (hgrow : w.GrowsAlong asserts c ops) :
    ∀ c m, w'.map? c = some m → m.Sound (objEnv asserts) := by
  intro c' m' hm'
  by_cases hc : c' = c
  · subst hc
    obtain ⟨m, m₁, hm, hm₁, hrun⟩ := h.map
    obtain rfl : m₁ = m' := Option.some.inj (hm₁.symm.trans hm')
    obtain ⟨m₂, hrun', hsound⟩ :=
      sound_run_of_growsWell (objEnv_equivalence asserts) (hw c' m hm) (hgrow m hm)
    obtain rfl : m₁ = m₂ := Except.ok.inj (hrun.symm.trans hrun')
    exact hsound
  · rw [h.others c' hc] at hm'
    exact hw c' m' hm'

theorem Acts.pairsIn_of_ne {ops : List (MultimapOp ObjKey ObjId)} (h : Acts asserts c id ops w w')
    {c' : Container} (hc : c' ≠ c) : w'.pairsIn c' = w.pairsIn c' := by
  rw [World.pairsIn, World.pairsIn, h.others c' hc]

/-- **Inserting**: the pairs there were, and for each key one that refers to the
object. -/
theorem Acts.mem_pairsIn_insert {keys : List ObjKey}
    (h : Acts asserts c id (keys.map fun key => .insert key id) w w') (hw : w.Tidy asserts) :
    ∃ new : List ObjPair, (∀ p, p ∈ w'.pairsIn c ↔ p ∈ new ∨ p ∈ w.pairsIn c) ∧
      (∀ p ∈ new, p.val = id ∧ p.key ∈ keys) ∧ ∀ key ∈ keys, ∃ p ∈ new, p.key = key := by
  obtain ⟨m, m', hm, hm', hrun⟩ := h.map
  obtain ⟨new, hperm, hnew, hall⟩ := perm_pairs_insertKeys (hw.sound c m hm).toRegular hrun
  refine ⟨new, fun p => ?_, hnew, hall⟩
  rw [pairsIn_eq hm, pairsIn_eq hm', hperm.mem_iff, List.mem_append]

/-- Deletions grow nothing. -/
theorem growsAlong_deleteOps (w : World ℕ) (c : Container) (texts : List CString) :
    w.GrowsAlong asserts c (deleteOps id texts) := by
  rintro m -
  induction texts generalizing m with
  | nil => trivial
  | cons text texts ih => exact ⟨growsWell_delete _ m _ _, fun m' _ => ih m'⟩

/-- **Deleting an object under all its keys**: the pairs that do not refer to it. -/
theorem Acts.mem_pairsIn_delete (h : Acts asserts c id (deleteOps id (o.aliasList ++ [o.name])) w w')
    (hw : w.Tidy asserts) {n : ℕ} (ho : w.objects id = some { o with refcount := n })
    {p : ObjPair} : p ∈ w'.pairsIn c ↔ p ∈ w.pairsIn c ∧ p.val ≠ id := by
  obtain ⟨m, m', hm, hm', hrun⟩ := h.map
  rw [pairsIn_eq hm', mem_pairs_deleteOps_iff (hw.sound c m hm).toRegular hrun, pairsIn_eq hm]
  refine and_congr_right fun hp => ⟨fun hkept => ?_, fun hne _ _ heq => absurd heq hne⟩
  rintro rfl
  have hmem : p ∈ w.pairsIn c := pairsIn_eq hm ▸ hp
  have hnamed := hw.named c p hmem _ (descr_eq ho)
  have hkey : p.key.text ∈ o.name :: o.aliasList := hnamed
  refine hkept p.key.text ?_ rfl ?_
  · rcases List.mem_cons.mp hkey with hname | halias
    · exact List.mem_append_right _ (List.mem_singleton.mpr hname)
    · exact List.mem_append_left _ halias
  · rw [← listed_eq hm]
    exact hw.mem_listed hmem rfl

/-! ## A move -/

/-- **What moving an object comes to**: its pairs are gone from `src`, it is in `dst`
under every key it has, and all other pairs are where they were. -/
structure Shifted (asserts : Bool) (src dst : Container) (id : ObjId) (o : Object ℕ) (w w' : World ℕ) :
    Prop where
  tidy : w'.Tidy asserts
  descr : w'.descr = w.descr
  gone : ∀ p ∈ w'.pairsIn src, p.val ≠ id
  arrived : ∀ text ∈ o.keys, ∃ p ∈ w'.pairsIn dst, p.val = id ∧ p.key.text = text
  rest : ∀ c p, p.val ≠ id → (p ∈ w'.pairsIn c ↔ p ∈ w.pairsIn c)
  elsewhere : ∀ c, c ≠ src → c ≠ dst → w'.pairsIn c = w.pairsIn c

/-- What is still to be done to the destination of a move when it has been made. -/
theorem Moved.growsAlong_dst {src dst : Container} {texts : List CString}
    {ops : List (MultimapOp ObjKey ObjId)} (h : Moved asserts src dst id o texts w w')
    (hne : dst ≠ src) (hgrow : w.GrowsAlong asserts dst (insertOps id texts ++ ops)) :
    w'.GrowsAlong asserts dst ops := by
  obtain ⟨w₁, h₁, h₂⟩ := h.between
  exact (hgrow.right h₁).of_map_eq (h₂.others dst hne)

/-- What is still to be done to the source of a move when it has been made. -/
theorem Moved.growsAlong_src {src dst : Container} {texts : List CString}
    {ops : List (MultimapOp ObjKey ObjId)} (h : Moved asserts src dst id o texts w w')
    (hne : src ≠ dst)
    (hgrow : w.GrowsAlong asserts src (deleteOps id (o.aliasList ++ [o.name]) ++ ops)) :
    w'.GrowsAlong asserts src ops := by
  obtain ⟨w₁, h₁, h₂⟩ := h.between
  exact (hgrow.of_map_eq (h₁.others src hne)).right h₂

/-- **A move that grows the destination well shifts the object.** -/
theorem Moved.shifted {src dst : Container} {texts : List CString}
    (h : Moved asserts src dst id o texts w w') (hw : w.Tidy asserts) (hne : src ≠ dst) {n : ℕ}
    (ho : w.objects id = some { o with refcount := n })
    (hlive : (w'.objects id).isSome = true) (htexts : ∀ text, text ∈ texts ↔ text ∈ o.keys)
    (hgrow : w.GrowsAlong asserts dst (insertOps id texts)) :
    Shifted asserts src dst id o w w' := by
  obtain ⟨w₁, h₁, h₂⟩ := h.between
  have hsound₁ := h₁.sound hw.sound hgrow
  rw [insertOps_eq] at h₁
  obtain ⟨new, hmem, hnew, hall⟩ := h₁.mem_pairsIn_insert hw
  obtain ⟨o₂, ho₂⟩ := Option.isSome_iff_exists.mp hlive
  obtain ⟨o', ho', -⟩ := h₂.object o₂ ho₂
  obtain ⟨n₁, ho₁⟩ := h₁.same_object ho (by rw [ho']; rfl)
  have hdescr₁ : w₁.descr = w.descr := h₁.descr ho (by rw [ho']; rfl)
  -- keys of what is in the two maps after the insertion
  have hnamed₁ : ∀ c', ∀ p ∈ w₁.pairsIn c', ∀ ox, w₁.descr p.val = some ox →
      p.key.text ∈ ox.keys := by
    intro c' p hp ox hox
    have hold : p ∈ w.pairsIn c' → p.key.text ∈ ox.keys := fun hp =>
      hw.named c' p hp ox (hdescr₁ ▸ hox)
    by_cases hc : c' = dst
    · subst hc
      rcases (hmem p).mp hp with hp | hp
      · obtain ⟨hval, hkey⟩ := hnew p hp
        obtain ⟨text, htext, hk⟩ := List.mem_map.mp hkey
        rw [hval, descr_eq ho₁] at hox
        rw [← Option.some.inj hox, ← hk]
        exact (htexts text).mp htext
      · exact hold hp
    · rw [h₁.pairsIn_of_ne hc] at hp
      exact hold hp
  have htidy₁ : w₁.Tidy asserts := ⟨hsound₁, hnamed₁⟩
  have hdel : ∀ p, p ∈ w'.pairsIn src ↔ p ∈ w₁.pairsIn src ∧ p.val ≠ id := fun p =>
    h₂.mem_pairsIn_delete htidy₁ ho₁
  have hdescr₂ : w'.descr = w₁.descr := h₂.descr ho₁ hlive
  have hdst : w'.pairsIn dst = w₁.pairsIn dst := h₂.pairsIn_of_ne (Ne.symm hne)
  refine ⟨⟨h₂.sound hsound₁ (growsAlong_deleteOps w₁ src _), fun c' p hp ox hox => ?_⟩,
    hdescr₂.trans hdescr₁, fun p hp => ((hdel p).mp hp).2, fun text htext => ?_,
    fun c' p hp => ?_, fun c' hsrc hdst' => ?_⟩
  · rw [hdescr₂] at hox
    by_cases hc : c' = src
    · subst hc
      exact hnamed₁ c' p ((hdel p).mp hp).1 ox hox
    · rw [h₂.pairsIn_of_ne hc] at hp
      exact hnamed₁ c' p hp ox hox
  · obtain ⟨p, hp, hkey⟩ := hall ⟨text, some id⟩
      (List.mem_map.mpr ⟨text, (htexts text).mpr htext, rfl⟩)
    exact ⟨p, hdst ▸ (hmem p).mpr (Or.inl hp), (hnew p hp).1, by rw [hkey]⟩
  · have hfirst : p ∈ w₁.pairsIn c' ↔ p ∈ w.pairsIn c' := by
      by_cases hc : c' = dst
      · subst hc
        rw [hmem p]
        exact or_iff_right fun hpn => hp (hnew p hpn).1
      · rw [h₁.pairsIn_of_ne hc]
    rw [← hfirst]
    by_cases hc : c' = src
    · subst hc
      rw [hdel p]
      exact and_iff_left hp
    · rw [h₂.pairsIn_of_ne hc]
  · rw [h₂.pairsIn_of_ne hsrc, h₁.pairsIn_of_ne hdst']

theorem Shifted.inContainer_iff {src dst : Container} (h : Shifted asserts src dst id o w w')
    {x : ObjId} (hx : x ≠ id) (c : Container) : w'.InContainer c x ↔ w.InContainer c x := by
  constructor
  · rintro ⟨p, hp, rfl⟩
    exact ⟨p, (h.rest c p hx).mp hp, rfl⟩
  · rintro ⟨p, hp, rfl⟩
    exact ⟨p, (h.rest c p hx).mpr hp, rfl⟩

theorem Shifted.inContainer_dst {src dst : Container} (h : Shifted asserts src dst id o w w') :
    w'.InContainer dst id := by
  obtain ⟨p, hp, hval, -⟩ := h.arrived o.name (List.mem_cons_self ..)
  exact ⟨p, hp, hval⟩

theorem Shifted.primaryStored {src dst : Container} {held : ObjId → ℕ}
    (h : Shifted asserts src dst id o w w') {n : ℕ}
    (ho : w.objects id = some { o with refcount := n }) (hw : w.PrimaryStored held) :
    w'.PrimaryStored held := by
  intro c x ox hox hin
  rw [h.descr] at hox
  by_cases hx : x = id
  · subst hx
    have hname : ox.name = o.name := by
      rw [descr_eq ho] at hox
      rw [← Option.some.inj hox]
    by_cases hdst : c = dst
    · subst hdst
      obtain ⟨p, hp, hval, htext⟩ := h.arrived o.name (List.mem_cons_self ..)
      exact Or.inl ⟨p, hp, hval, htext.trans hname.symm⟩
    · by_cases hsrc : c = src
      · subst hsrc
        obtain ⟨p, hp, hval⟩ := hin
        exact absurd hval (h.gone p hp)
      · rw [World.InContainer, h.elsewhere c hsrc hdst] at hin
        rw [h.elsewhere c hsrc hdst]
        exact hw c x ox hox hin
  · refine (hw c x ox hox ((h.inContainer_iff hx c).mp hin)).imp_left ?_
    rintro ⟨p, hp, rfl, htext⟩
    exact ⟨p, (h.rest c p hx).mpr hp, rfl, htext⟩

end NetCosm
