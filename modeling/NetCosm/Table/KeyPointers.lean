import NetCosm.Table.Spellings

/-!
# Whose key a node has

A key is a pointer.  A node of a multimap keeps the pointer it was made with, and compares by the string
behind it; the pairs of the node have pointers of their own, to strings that compare equal.  In a room or
an inventory a key is the name or an alias of the object that is stored under it, and the string goes when
the object does.

So the pointer in a node is good as long as the pair it came with is there.  New pairs go to the front of
the list: this pair is the last one.  `multimap_delete` takes any pairs with a value out of the list, and
does not look at the pointer.  If it takes the last pair and leaves another, the node is left with a key
that belongs to no pair (`keysBelong_iff`).

`KeysBelong` is what is to hold, and `Anchored` what holds while it does: the key of every node is that of
its last pair, and no two pairs have one pointer.
-/

namespace NetCosm

universe u v

/-- A pointer to a string. -/
structure KeyPtr where
  addr : ℕ
  str : CString
  deriving DecidableEq

/-- The functions of a map, which look at the strings. -/
def HashEnv.onPtr (f : HashEnv CString) : HashEnv KeyPtr where
  hash k := f.hash k.str
  compare a b := f.compare a.str b.str
  asserts := f.asserts

variable {K : Type u} {V : Type v}

namespace Multimap

/-- **The key of every node is that of a pair in its list.** -/
def KeysBelong (m : Multimap K V) : Prop := ∀ n ∈ m.hashTab.nodes, ∃ p ∈ n.pairs, p.key = n.key

/-- No pair has the pointer already. -/
def NewPointer (m : Multimap K V) : MultimapOp K V → Prop
  | .insert key _ => ∀ p ∈ m.pairs, p.key ≠ key
  | _ => True

/-- If a deletion takes the first pair that was stored in the node, it takes all of them. -/
def SparesOldest (f : HashEnv K) (compareVal : V → V → ℤ) (m : Multimap K V) :
    MultimapOp K V → Prop
  | .delete key val => ∀ node, hashLookup f m.hashTab key = some node →
      ∀ p ∈ node.list.getLast?, compareVal val p.val = 0 → ∀ q ∈ node.list, compareVal val q.val = 0
  | _ => True

/-- The key of every node is that of its last pair, and no two pairs have one pointer. -/
structure Anchored (m : Multimap K V) : Prop where
  size_pos : 0 < m.hashTab.tableSz
  oldest : ∀ n ∈ m.hashTab.nodes, ∃ p ∈ n.pairs.getLast?, p.key = n.key
  distinct : (m.pairs.map MultimapPair.key).Nodup

end Multimap

open Multimap

variable {f : HashEnv K} {m m' : Multimap K V} {compareVal : V → V → ℤ}

theorem anchored_init (sz : ℕ) : (multimapInit sz : Multimap K V).Anchored where
  size_pos := tableSz_hashInit_pos sz
  oldest := by simp [multimapInit, hashInit]
  distinct := by simp

theorem Multimap.Anchored.keysBelong (hm : m.Anchored) : m.KeysBelong := fun n hn =>
  let ⟨p, hp, hkey⟩ := hm.oldest n hn
  ⟨p, List.mem_of_getLast? hp, hkey⟩

/-- Two pairs with one pointer are one pair. -/
theorem Multimap.Anchored.eq_of_key (hm : m.Anchored) {p q : MultimapPair K V} (hp : p ∈ m.pairs)
    (hq : q ∈ m.pairs) (h : p.key = q.key) : p = q :=
  List.inj_on_of_nodup_map hm.distinct hp hq h

/-- What taking pairs away keeps. -/
theorem distinct_of_perm {freed : List (MultimapPair K V)}
    (hm : (m.pairs.map MultimapPair.key).Nodup) (hperm : (freed ++ m'.pairs).Perm m.pairs) :
    (m'.pairs.map MultimapPair.key).Nodup := by
  have hnodup := (hperm.map MultimapPair.key).nodup_iff.mpr hm
  rw [List.map_append] at hnodup
  exact hnodup.of_append_right

/-! ## What the operations do -/

/-- **An insertion** puts the new pair in front, or makes a node with its pointer. -/
theorem anchored_insert (hm : m.Anchored) {key : K} {val : V} {r : Bool}
    (hnew : ∀ p ∈ m.pairs, p.key ≠ key) (h : multimapInsert f m key val = .ok (r, m')) :
    m'.Anchored := by
  refine ⟨?_, fun n' hn' => ?_, ?_⟩
  · cases hl : hashLookup f m.hashTab key with
    | some node =>
      rw [(multimapInsert_old hl h).1]
      exact hm.size_pos
    | none =>
      have hpos := hm.size_pos
      rw [(multimapInsert_new hpos hl h).2, sizeAfter]
      split <;> omega
  · rcases mem_nodes_insert hm.size_pos h hn' with hold | rfl | ⟨n, hn, -, rfl⟩
    · exact hm.oldest n' hold
    · exact ⟨_, rfl, rfl⟩
    · obtain ⟨p, hp, hkey⟩ := hm.oldest n (Buckets.mem_items_iff.mpr ⟨_, hn⟩)
      refine ⟨p, ?_, hkey⟩
      show p ∈ (m.newPair key val :: n.pairs).getLast?
      rw [List.getLast?_cons, Option.mem_def.mp hp]
      rfl
  · rw [((perm_pairs_insert hm.size_pos h).1.map _).nodup_iff, List.map_cons, List.nodup_cons]
    refine ⟨fun hmem => ?_, hm.distinct⟩
    obtain ⟨p, hp, hkey⟩ := List.mem_map.mp hmem
    exact hnew p hp hkey

/-- The last pair stays the last if it stays. -/
theorem getLast?_filter {α : Type*} {f : α → Bool} {l : List α} {a : α} (hl : a ∈ l.getLast?)
    (ha : f a = true) : a ∈ (l.filter f).getLast? := by
  obtain ⟨ys, rfl⟩ := List.getLast?_eq_some_iff.mp (Option.mem_def.mp hl)
  rw [List.filter_append, List.filter_cons_of_pos ha, List.filter_nil]
  exact List.getLast?_concat

/-- **A deletion that spares the last pair, or takes them all.** -/
theorem anchored_delete (hm : m.Anchored) {key : K} {val : V}
    (hspares : m.SparesOldest f compareVal (.delete key val)) :
    (multimapDelete f compareVal m key val).2.Anchored := by
  refine ⟨?_, fun n' hn' => ?_, distinct_of_perm hm.distinct (perm_pairs_delete f compareVal m key val).1⟩
  · rw [tableSz_multimapDelete]
    exact hm.size_pos
  · rcases multimapDelete_cases f compareVal m key val with
      ⟨-, hd⟩ | ⟨node, i, -, hp, -, hd⟩ | ⟨node, i, hl, hp, hk, hd⟩
    · rw [hd] at hn'
      exact hm.oldest n' hn'
    · rw [hd] at hn'
      exact hm.oldest n' ((mem_nodes_iff_unlink hp).mpr (Or.inr hn'))
    · rw [hd] at hn'
      rcases (mem_nodes_hashSetData hp).mp hn' with rfl | hrest
      · obtain ⟨j, hj, rfl⟩ := hashLookup_eq_some hl
        obtain rfl : j = i := Option.some.inj (hj.symm.trans hp)
        obtain ⟨p, hlast, hkey⟩ := hm.oldest _ ((mem_nodes_iff_unlink hj).mpr (Or.inl rfl))
        refine ⟨p, getLast?_filter hlast ?_, hkey⟩
        -- some pair is kept, so this one is
        obtain ⟨q, hq⟩ := List.exists_mem_of_ne_nil _ hk
        obtain ⟨hq, hne⟩ := List.mem_filter.mp hq
        rw [Bool.not_eq_true', beq_eq_false_iff_ne] at hne ⊢
        exact fun heq => hne (hspares _ hl p hlast heq q hq)
      · exact hm.oldest n' ((mem_nodes_iff_unlink hp).mpr (Or.inr hrest))

/-- **A deletion that takes the last pair and leaves another**: the key of the node belongs to none. -/
theorem not_keysBelong_delete (hm : m.Anchored) {key : K} {val : V}
    (hspares : ¬ m.SparesOldest f compareVal (.delete key val)) :
    ¬ (multimapDelete f compareVal m key val).2.KeysBelong := by
  rw [SparesOldest] at hspares
  push Not at hspares
  obtain ⟨node, hl, p, hlast, htaken, q, hq, hne⟩ := hspares
  intro hbelong
  rcases multimapDelete_cases f compareVal m key val with
    ⟨hnone, -⟩ | ⟨node', i, hl', -, hk, -⟩ | ⟨node', i, hl', hp, -, hd⟩
  · exact absurd (hnone.symm.trans hl) (by simp)
  · obtain rfl := Option.some.inj (hl'.symm.trans hl)
    have hkept : q ∈ (node'.kept compareVal val).list :=
      List.mem_filter.mpr ⟨hq, by rwa [Bool.not_eq_true', beq_eq_false_iff_ne]⟩
    rw [hk] at hkept
    exact absurd hkept List.not_mem_nil
  · obtain rfl := Option.some.inj (hl'.symm.trans hl)
    obtain ⟨j, hj, rfl⟩ := hashLookup_eq_some hl
    obtain rfl : j = i := Option.some.inj (hj.symm.trans hp)
    have hnode := (mem_nodes_iff_unlink hj).mpr (Or.inl rfl)
    obtain ⟨p', hlast', hkey⟩ := hm.oldest _ hnode
    obtain rfl : p' = p := Option.mem_unique hlast' hlast
    rw [hd] at hbelong
    obtain ⟨r, hr, hrkey⟩ := hbelong _ ((mem_nodes_hashSetData hj).mpr (Or.inl rfl))
    obtain ⟨hr, hrne⟩ := List.mem_filter.mp hr
    have heq : r = p' := hm.eq_of_key (mem_pairs_iff.mpr ⟨_, hnode, hr⟩)
      (mem_pairs_iff.mpr ⟨_, hnode, List.mem_of_getLast? hlast⟩) (hrkey.trans hkey.symm)
    rw [heq, Bool.not_eq_true', beq_eq_false_iff_ne] at hrne
    exact hrne htaken

theorem anchored_deleteAll (hm : m.Anchored) (key : K) : (multimapDeleteAll f m key).2.Anchored where
  size_pos := by
    rw [tableSz_multimapDeleteAll]
    exact hm.size_pos
  oldest n hn := hm.oldest n (mem_nodes_deleteAll hn)
  distinct := distinct_of_perm hm.distinct (perm_pairs_deleteAll f m key).1

/-- **One operation.** -/
theorem anchored_step {op : MultimapOp K V} (hm : m.Anchored) (hnew : m.NewPointer op)
    (hspares : m.SparesOldest f compareVal op) (h : multimapStep f compareVal m op = .ok m') :
    m'.Anchored := by
  cases op with
  | insert key val =>
    obtain ⟨⟨r, m''⟩, hins, rfl⟩ := map_eq_ok h
    exact anchored_insert hm hnew hins
  | delete key val =>
    obtain rfl := Except.ok.inj h
    exact anchored_delete hm hspares
  | deleteAll key =>
    obtain rfl := Except.ok.inj h
    exact anchored_deleteAll hm key

theorem not_keysBelong_step {op : MultimapOp K V} (hm : m.Anchored)
    (hspares : ¬ m.SparesOldest f compareVal op) (h : multimapStep f compareVal m op = .ok m') :
    ¬ m'.KeysBelong := by
  cases op with
  | insert key val => exact absurd trivial hspares
  | delete key val =>
    obtain rfl := Except.ok.inj h
    exact not_keysBelong_delete hm hspares
  | deleteAll key => exact absurd trivial hspares

/-- **A table key belongs to a stored pair** in every state of a run exactly when no deletion of the run
takes the first pair that was stored in a node without taking all of them.  Keys are pointers, and no
pointer is inserted while a pair has it. -/
theorem keysBelong_iff (f : HashEnv CString) (compareVal : V → V → ℤ) (sz : ℕ)
    (ops : List (MultimapOp KeyPtr V))
    (hnew : Runs.EachStep (multimapStep f.onPtr compareVal) NewPointer (multimapInit sz) ops) :
    Runs.Always (multimapStep f.onPtr compareVal) KeysBelong (multimapInit sz) ops ↔
      Runs.EachDone (multimapStep f.onPtr compareVal) (SparesOldest f.onPtr compareVal)
        (multimapInit sz) ops :=
  Runs.always_iff_eachDone_given (I := Anchored) (fun _ hm => hm.keysBelong)
    (fun _ _ _ hm hnew hspares h => anchored_step hm hnew hspares h)
    (fun _ _ _ hm _ hspares h => not_keysBelong_step hm hspares h) (anchored_init sz) hnew

/-! ## Two swords -/

instance [DecidableEq K] (m : Multimap K V) : Decidable m.KeysBelong :=
  inferInstanceAs (Decidable (∀ n ∈ m.hashTab.nodes, ∃ p ∈ n.pairs, p.key = n.key))

instance instDecidableNewPointer [DecidableEq K] (m : Multimap K V) :
    (op : MultimapOp K V) → Decidable (m.NewPointer op)
  | .insert key _ => inferInstanceAs (Decidable (∀ p ∈ m.pairs, p.key ≠ key))
  | .delete _ _ => .isTrue trivial
  | .deleteAll _ => .isTrue trivial

/-- `obj_compare`, on the ids of the objects. -/
def compareIds (a b : ℕ) : ℤ := if a = b then 0 else 1

/-- The name of the object `id`, which is a sword. -/
def swordName (id : ℕ) : KeyPtr := ⟨id, .ofChars "sword".toList⟩

/-- Two swords are put into a room, and the sword `id` is taken. -/
def swordOps (id : ℕ) : List (MultimapOp KeyPtr ℕ) :=
  [.insert (swordName 1) 1, .insert (swordName 2) 2, .delete (swordName id) id]

/-- The run of the two swords of which the newer is taken. -/
theorem keysBelong_iff_swords :
    Runs.Always (multimapStep (roomEnv true).onPtr compareIds) KeysBelong (multimapInit 8) (swordOps 2) ↔
      Runs.EachDone (multimapStep (roomEnv true).onPtr compareIds)
        (SparesOldest (roomEnv true).onPtr compareIds) (multimapInit 8) (swordOps 2) :=
  keysBelong_iff (roomEnv true) compareIds 8 (swordOps 2) (by decide +kernel)

/-- **The older of two swords is taken**, and the table has the name of that one. -/
theorem sword_key_released :
    Runs.EachStep (multimapStep (roomEnv true).onPtr compareIds) NewPointer (multimapInit 8)
        (swordOps 1) ∧
      ¬ Runs.Always (multimapStep (roomEnv true).onPtr compareIds) KeysBelong (multimapInit 8)
        (swordOps 1) := by
  refine ⟨by decide +kernel, fun h => ?_⟩
  have hrun : ((Runs.run (multimapStep (roomEnv true).onPtr compareIds) (multimapInit 8)
      (swordOps 1)).toOption.map fun m => decide m.KeysBelong) = some false := by decide +kernel
  cases hr : Runs.run (multimapStep (roomEnv true).onPtr compareIds) (multimapInit 8) (swordOps 1) with
  | error e =>
    rw [hr] at hrun
    exact absurd hrun (by simp [Except.toOption])
  | ok m =>
    rw [hr] at hrun
    exact of_decide_eq_false (Option.some.inj hrun) (h.last hr)

end NetCosm
