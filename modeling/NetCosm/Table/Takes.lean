import NetCosm.Table.Filling
import NetCosm.Table.HashData
import NetCosm.Table.MultimapRefinement

/-!
# Which keys a fresh table takes

A loop that inserts one item after another into a table returns unless the table has to grow from a size
of `2 ^ 32`.  Whether it comes to that depends on the keys and their order and on nothing else, neither on
the data nor, in a multimap, on the values.  `Takes f sz keys` says of keys that a table that was made with
the size `sz` takes them.

`insertAll_spec` and `insertPairs_spec` say what such a loop makes of a table; `exists_insertAll_of_roomy`
is the case of a table that was made large enough.
-/

namespace NetCosm

universe u v w

variable {K : Type u} {D : Type v} {D' : Type w} {f : HashEnv K}

/-- Items are inserted into a hash table, one after another. -/
def insertAll (f : HashEnv K) (t : HashMap K D) (items : List (K × D)) :
    Except Fault (HashMap K D) :=
  items.foldlM (fun t x => (hashInsert f t x.1 x.2).map Prod.snd) t

/-- Pairs are inserted into a multimap, one after another. -/
def insertPairs (f : HashEnv K) (m : Multimap K D) (items : List (K × D)) :
    Except Fault (Multimap K D) :=
  items.foldlM (fun m x => (multimapInsert f m x.1 x.2).map Prod.snd) m

/-- **A table that was made with the size `sz` takes the keys.** -/
def Takes (f : HashEnv K) (sz : ℕ) (keys : List K) : Prop :=
  ∃ t, insertAll f (hashInit sz : HashMap K Unit) (keys.map fun key => (key, ())) = .ok t

/-! ## Only the keys matter -/

section Keys

variable (g : D → D')

theorem insertAll_mapData (t : HashMap K D) (items : List (K × D)) :
    insertAll f (t.mapData g) (items.map fun x => (x.1, g x.2)) =
      (insertAll f t items).map (HashMap.mapData g) := by
  induction items generalizing t with
  | nil => rfl
  | cons x items ih =>
    rw [insertAll, insertAll, List.map_cons, List.foldlM_cons, List.foldlM_cons, hashInsert_mapData]
    cases hashInsert f t x.1 x.2 with
    | error e => rfl
    | ok r => exact ih r.2

/-- **Whether a loop of insertions returns depends on the keys.** -/
theorem exists_insertAll_iff (sz : ℕ) (items : List (K × D)) :
    (∃ t, insertAll f (hashInit sz) items = .ok t) ↔ Takes f sz (items.map Prod.fst) := by
  have hmap := insertAll_mapData (fun _ : D => ()) (f := f) (hashInit sz) items
  have hinit : (hashInit sz : HashMap K D).mapData (fun _ => ()) = hashInit sz := mapData_fresh _ _
  rw [hinit] at hmap
  rw [Takes, List.map_map]
  constructor
  · rintro ⟨t, ht⟩
    rw [ht] at hmap
    exact ⟨_, hmap⟩
  · rintro ⟨t, ht⟩
    obtain ⟨t', ht', -⟩ := map_eq_ok (hmap.symm.trans ht)
    exact ⟨t', ht'⟩

/-- A datum is written that says nothing. -/
theorem hashSetData_unit (t : HashMap K Unit) (key : K) : hashSetData f t key () = t := by
  unfold hashSetData
  cases t.pos f key with
  | none => rfl
  | some i =>
    have hsame : (fun n : HashNode K Unit => { n with data := () }) = id := rfl
    dsimp only
    rw [hsame, List.modify_id, HashMap.setChain, HashMap.chain, Buckets.chain]
    refine congrArg (fun table => { t with table := table }) ?_
    refine List.ext_getElem? fun b => ?_
    rw [List.getElem?_set]
    split
    · rename_i hb
      subst hb
      split
      · rename_i hlt
        rw [List.getD_eq_getElem?_getD, List.getElem?_eq_getElem hlt]
        rfl
      · rename_i hlt
        rw [List.getElem?_eq_none (Nat.not_lt.mp hlt)]
    · rfl

theorem multimapInsert_keys (m : Multimap K D) (key : K) (val : D) :
    (multimapInsert f m key val).map (fun r => r.2.hashTab.mapData fun _ => ()) =
      (hashInsert f (m.hashTab.mapData fun _ => ()) key ()).map Prod.snd := by
  unfold multimapInsert
  dsimp only
  cases hl : hashLookup f m.hashTab key with
  | some node =>
    have hfound : hashInsert f (m.hashTab.mapData fun _ => ()) key () =
        .ok (some (), m.hashTab.mapData fun _ => ()) := by
      rw [hashInsert, hashLookup_mapData, hl]
      rfl
    rw [hfound]
    show Except.ok ((hashSetData f m.hashTab key _).mapData _) = Except.ok _
    rw [← hashSetData_mapData, hashSetData_unit]
  | none =>
    dsimp only
    rw [hashInsert_mapData (g := fun _ => ()) (d := MultimapNode.single ⟨m.fresh, key, val⟩)]
    cases hashInsert f m.hashTab key (MultimapNode.single ⟨m.fresh, key, val⟩) <;> rfl

theorem insertPairs_keys (m : Multimap K D) (items : List (K × D)) :
    (insertPairs f m items).map (fun m => m.hashTab.mapData fun _ => ()) =
      insertAll f (m.hashTab.mapData fun _ => ()) (items.map fun x => (x.1, ())) := by
  induction items generalizing m with
  | nil => rfl
  | cons x items ih =>
    have hone := multimapInsert_keys (f := f) m x.1 x.2
    rw [insertPairs, insertAll, List.map_cons, List.foldlM_cons, List.foldlM_cons, ← hone]
    cases multimapInsert f m x.1 x.2 with
    | error e => rfl
    | ok r => exact ih r.2

/-- **Whether pairs can be inserted depends on the keys.** -/
theorem exists_insertPairs_iff (sz : ℕ) (items : List (K × D)) :
    (∃ m, insertPairs f (multimapInit sz) items = .ok m) ↔ Takes f sz (items.map Prod.fst) := by
  have hmap := insertPairs_keys (f := f) (multimapInit sz) items
  have hinit : (multimapInit sz : Multimap K D).hashTab.mapData (fun _ => ()) = hashInit sz :=
    mapData_fresh _ _
  rw [hinit] at hmap
  rw [Takes, List.map_map]
  constructor
  · rintro ⟨m, hm⟩
    rw [hm] at hmap
    exact ⟨_, hmap.symm⟩
  · rintro ⟨t, ht⟩
    obtain ⟨m, hm, -⟩ := map_eq_ok (hmap.trans ht)
    exact ⟨m, hm⟩

/-- **A table takes fewer than `fillLimit` keys.** -/
theorem takes_of_lt (hf : Equivalence f.Same) {sz : ℕ} (hsz : sz ≤ 2 * unsignedRange) {keys : List K}
    (hlt : keys.length < fillLimit) : Takes f sz keys := by
  have hall : ∀ (keys : List K) (t : HashMap K Unit) (n : ℕ), t.Filling f n →
      n + keys.length < fillLimit → ∃ t', insertAll f t (keys.map fun key => (key, ())) = .ok t' := by
    intro keys
    induction keys with
    | nil => exact fun t _ _ _ => ⟨t, rfl⟩
    | cons key keys ih =>
      intro t n ht hn
      rw [List.length_cons] at hn
      obtain ⟨r, hins, hfill⟩ := ht.exists_hashInsert hf (by omega) key ()
      obtain ⟨t', ht'⟩ := ih r.2 (n + 1) hfill (by omega)
      refine ⟨t', ?_⟩
      rw [insertAll, List.map_cons, List.foldlM_cons, hins]
      exact ht'
  exact hall keys (hashInit sz) 0 (HashMap.filling_hashInit f hsz) (by omega)

end Keys

/-! ## What the loops leave -/

section Spec

/-- A new key that was inserted. -/
theorem wellPlaced_insertNew (hf : Equivalence f.Same) {t t' : HashMap K D} (ht : t.WellPlaced f)
    {key : K} (hnew : hashLookup f t key = none) {data : D} {r : Option D}
    (h : hashInsert f t key data = .ok (r, t')) :
    r = none ∧ t'.WellPlaced f ∧ t'.nodes.Perm (⟨key, data⟩ :: t.nodes) ∧ (t.Sane → t'.Sane) := by
  have h0 := ht.size_pos
  have hb := f.bucket_lt key h0
  have happend := wellPlaced_appendNode hf ht hnew data
  have hperm := perm_nodes_appendNode t hb key data
  rcases hashInsert_ok h with ⟨rfl, hne, -⟩ | ⟨rfl, -, hins⟩
  · exact absurd hnew hne
  · refine ⟨rfl, ?_, ?_, (insertNew_counts h0 hins).2⟩
    · rcases hashInternalInsertNew_ok h0 hins with ⟨-, rfl⟩ | ⟨-, rfl⟩
      · exact happend
      · exact wellPlaced_relinkAll hf happend (by omega) (by simp)
    · rcases hashInternalInsertNew_ok h0 hins with ⟨-, rfl⟩ | ⟨-, rfl⟩
      · exact hperm
      · exact (perm_nodes_relinkAll f _ (by omega)).trans hperm

/-- **What a loop of insertions of new keys leaves.** -/
theorem insertAll_spec (hf : Equivalence f.Same) {t t' : HashMap K D} (ht : t.WellPlaced f)
    {items : List (K × D)} (hnew : ∀ x ∈ items, ∀ n ∈ t.nodes, ¬ f.Same x.1 n.key)
    (hdistinct : items.Pairwise fun x y => ¬ f.Same x.1 y.1) (h : insertAll f t items = .ok t') :
    t'.WellPlaced f ∧ t'.nodes.Perm ((items.map fun x => ⟨x.1, x.2⟩) ++ t.nodes) ∧
      (t.Sane → t'.Sane) := by
  induction items generalizing t with
  | nil =>
    obtain rfl := Except.ok.inj h
    exact ⟨ht, List.Perm.refl _, id⟩
  | cons x items ih =>
    rw [insertAll, List.foldlM_cons] at h
    obtain ⟨t₁, hone, hrest⟩ := bind_eq_ok h
    obtain ⟨⟨r, t₂⟩, hins, rfl⟩ := map_eq_ok hone
    have hnone : hashLookup f t x.1 = none := by
      cases hl : hashLookup f t x.1 with
      | none => rfl
      | some d =>
        obtain ⟨n, hn, hs, -⟩ := (hashLookup_eq_some_iff hf ht).mp hl
        exact absurd hs (hnew x (List.mem_cons_self ..) n (Buckets.mem_items_iff.mpr ⟨_, hn⟩))
    obtain ⟨-, hplaced, hperm, hsane⟩ := wellPlaced_insertNew hf ht hnone hins
    obtain ⟨hhead, htail⟩ := List.pairwise_cons.mp hdistinct
    have hnext : ∀ y ∈ items, ∀ n ∈ t₂.nodes, ¬ f.Same y.1 n.key := by
      intro y hy n hn
      rcases List.mem_cons.mp (hperm.mem_iff.mp hn) with rfl | hn
      · exact fun hs => hhead y hy (hf.symm hs)
      · exact hnew y (List.mem_cons_of_mem x hy) n hn
    obtain ⟨hplaced', hperm', hsane'⟩ := ih hplaced hnext htail hrest
    refine ⟨hplaced', hperm'.trans ?_, fun hs => hsane' (hsane hs)⟩
    rw [List.map_cons, List.cons_append]
    exact (hperm.append_left _).trans List.perm_middle

/-- **What a loop of insertions leaves of a multimap.** -/
theorem insertPairs_spec (hf : Equivalence f.Same) {m m' : Multimap K D} (hm : m.Regular f)
    (hne : ∀ n ∈ m.hashTab.nodes, n.pairs ≠ []) {items : List (K × D)}
    (h : insertPairs f m items = .ok m') :
    m'.Regular f ∧ (∀ n ∈ m'.hashTab.nodes, n.pairs ≠ []) ∧
      (m'.pairs.map MultimapPair.pair).Perm (items ++ m.pairs.map MultimapPair.pair) := by
  induction items generalizing m with
  | nil =>
    obtain rfl := Except.ok.inj h
    exact ⟨hm, hne, List.Perm.refl _⟩
  | cons x items ih =>
    rw [insertPairs, List.foldlM_cons] at h
    obtain ⟨m₁, hone, hrest⟩ := bind_eq_ok h
    obtain ⟨⟨r, m₂⟩, hins, rfl⟩ := map_eq_ok hone
    have hperm := (perm_pairs_insert hm.placed.size_pos hins).1.map MultimapPair.pair
    have hnext : ∀ n ∈ m₂.hashTab.nodes, n.pairs ≠ [] := by
      intro n hn
      rcases mem_nodes_insert hm.placed.size_pos hins hn with hold | rfl | ⟨n', -, -, rfl⟩
      · exact hne n hold
      · exact List.cons_ne_nil _ _
      · exact List.cons_ne_nil _ _
    obtain ⟨hreg, hne', hperm'⟩ := ih (regular_insert hf hm hins) hnext hrest
    refine ⟨hreg, hne', hperm'.trans ?_⟩
    rw [List.cons_append]
    exact (hperm.append_left _).trans List.perm_middle

/-- **A table with buckets to spare takes new keys.** -/
theorem exists_insertAll_of_roomy (hf : f.Compatible) {t : HashMap K D} (ht : t.WellPlaced f)
    (hs : t.Sane) (hsz : t.tableSz < 2 ^ 64) {items : List (K × D)}
    (hroomy : items ≠ [] → 4 * (t.stored + items.length) < 3 * t.tableSz)
    (hnew : ∀ x ∈ items, ∀ n ∈ t.nodes, ¬ f.Same x.1 n.key)
    (hdistinct : items.Pairwise fun x y => ¬ f.Same x.1 y.1) :
    ∃ t', insertAll f t items = .ok t' := by
  induction items generalizing t with
  | nil => exact ⟨t, rfl⟩
  | cons x items ih =>
    have hroom := hroomy (List.cons_ne_nil _ _)
    rw [List.length_cons] at hroom
    have hnone : hashLookup f t x.1 = none := by
      cases hl : hashLookup f t x.1 with
      | none => rfl
      | some d =>
        obtain ⟨n, hn, hsame, -⟩ := (hashLookup_eq_some_iff hf.equiv ht).mp hl
        exact absurd hsame (hnew x (List.mem_cons_self ..) n (Buckets.mem_items_iff.mpr ⟨_, hn⟩))
    obtain ⟨t₁, hins, hplaced, hsane, htab, hstored, -⟩ :=
      HashMap.hashInsert_of_roomy hf ht hs hsz (by omega) hnone x.2
    obtain ⟨-, -, hperm, -⟩ := wellPlaced_insertNew hf.equiv ht hnone hins
    obtain ⟨hhead, htail⟩ := List.pairwise_cons.mp hdistinct
    have hnext : ∀ y ∈ items, ∀ n ∈ t₁.nodes, ¬ f.Same y.1 n.key := by
      intro y hy n hn
      rcases List.mem_cons.mp (hperm.mem_iff.mp hn) with rfl | hn
      · exact fun hsame => hhead y hy (hf.equiv.symm hsame)
      · exact hnew y (List.mem_cons_of_mem x hy) n hn
    obtain ⟨t', ht'⟩ := ih hplaced hsane (by rw [htab]; exact hsz)
      (fun _ => by rw [htab, hstored]; omega) hnext htail
    refine ⟨t', ?_⟩
    rw [insertAll, List.foldlM_cons, hins]
    exact ht'

end Spec

end NetCosm
