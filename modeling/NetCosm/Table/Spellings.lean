import NetCosm.Table.MultimapLookup
import NetCosm.Text.Words

/-!
# Whether the spelling of a name matters

Room and inventory maps compare names up to case and hash them as they are spelled.  Two
spellings of one name find the same list if they hash to the same bucket, and the question
is when they do.

`Settled f sz key` says that at size `sz` every spelling of `key` hashes where `key` does.
A map does not tell spellings apart, in the sense of `IgnoresSpelling`, exactly when the
key of every node is settled at the present size: then any spelling leads to the
node, and if some spelling led elsewhere it would find another list there, or none.  So
what matters are insertions of new keys, which bring in a key and may change the size;
`InsertsSettled` is the condition on such an insertion, and `ignoresSpelling_iff` says
that a run never tells spellings apart if and only if all its insertions meet it.

## At which sizes names are settled

`hash_djb` multiplies by `33` and takes the exclusive or with the next byte, and case is
bit `5` of a letter.  The low five bits of the hash therefore do not depend on case
(`hashDjb_toNat_mod`), and every name is settled at the sizes that divide `32`
(`settled_of_dvd`, `hashDjb_nocase`).  At other sizes one letter is enough for a counterexample: the
inventory of a user with three objects is created with three buckets.
-/

namespace NetCosm

universe u v

variable {K : Type u} {V : Type v}

/-- At size `sz` every spelling of `key` hashes where `key` does. -/
def Settled (f : HashEnv K) (sz : ℕ) (key : K) : Prop :=
  ∀ k, f.Same key k → f.bucket k sz = f.bucket key sz

namespace Multimap

/-- Two spellings of a key find the same list and the same number. -/
def IgnoresSpelling (f : HashEnv K) (m : Multimap K V) : Prop :=
  ∀ k k', f.Same k k' → multimapLookup f m k = multimapLookup f m k'

/-- The size of the table after an operation. -/
def sizeAfter (f : HashEnv K) (m : Multimap K V) (op : MultimapOp K V) : ℕ :=
  if m.grows f op then m.hashTab.tableSz * 2 else m.hashTab.tableSz

/-- If the operation inserts a new key, this key and those of all nodes are settled at the
size the table then has. -/
def InsertsSettled (f : HashEnv K) (m : Multimap K V) : MultimapOp K V → Prop
  | .insert key val =>
      hashLookup f m.hashTab key = none →
        ∀ n ∈ (m.inserted f key val).nodes, Settled f (m.sizeAfter f (.insert key val)) n.key
  | _ => True

/-- What holds while spellings are ignored: the keys of all nodes are settled, and no node
is without cells. -/
structure AllSettled (f : HashEnv K) (m : Multimap K V) : Prop extends m.Regular f where
  nonempty : ∀ n ∈ m.hashTab.nodes, n.pairs ≠ []
  settled : ∀ n ∈ m.hashTab.nodes, Settled f m.hashTab.tableSz n.key

end Multimap

open Multimap

variable {f : HashEnv K} {m m' : Multimap K V} {compareVal : V → V → ℤ}

/-- **When all keys are settled, spellings are ignored.** -/
theorem Multimap.AllSettled.ignoresSpelling (hf : Equivalence f.Same) (hm : m.AllSettled f) :
    m.IgnoresSpelling f := by
  have hsub : ∀ k k' d, f.Same k k' → hashLookup f m.hashTab k = some d →
      hashLookup f m.hashTab k' = some d := by
    intro k k' d hs hk
    obtain ⟨n, hn, hsame, hd⟩ := (hashLookup_eq_some_iff hf hm.placed).mp hk
    have hsame' : f.Same k' n.key := hf.trans (hf.symm hs) hsame
    have hmem : n ∈ m.hashTab.nodes := Buckets.mem_items_iff.mpr ⟨_, hn⟩
    refine (hashLookup_eq_some_iff hf hm.placed).mpr ⟨n, ?_, hsame', hd⟩
    rw [hm.settled n hmem k' (hf.symm hsame')]
    exact hm.placed.mem_nodes_iff.mp hmem
  intro k k' hs
  have heq : hashLookup f m.hashTab k = hashLookup f m.hashTab k' :=
    Option.ext fun d => ⟨hsub k k' d hs, hsub k' k d (hf.symm hs)⟩
  rw [multimapLookup, multimapLookup, heq]

/-- **A key that is not settled is told from one of its spellings**, if its node has any
cell. -/
theorem not_ignoresSpelling (hf : Equivalence f.Same) (hm : m.Regular f)
    {n : HashNode K (MultimapNode K V)} (hn : n ∈ m.hashTab.nodes) (hne : n.pairs ≠ [])
    (hunsettled : ¬ Settled f m.hashTab.tableSz n.key) : ¬ m.IgnoresSpelling f := by
  intro hign
  rw [Settled] at hunsettled
  push Not at hunsettled
  obtain ⟨k, hs, hbucket⟩ := hunsettled
  have hfound : multimapLookup f m n.key = (n.pairs, n.data.nPairs) := by
    rw [multimapLookup, (hashLookup_eq_some_iff hf hm.placed).mpr
      ⟨n, hm.placed.mem_nodes_iff.mp hn, hf.refl _, rfl⟩]
    rfl
  obtain ⟨p, hp⟩ := List.exists_mem_of_ne_nil _ hne
  -- the other spelling finds a cell of the node too, so its walk meets the node
  have hpk : p ∈ (multimapLookup f m k).1 := by
    rw [← hign n.key k hs, hfound]
    exact hp
  obtain ⟨n', hn', hp', -⟩ := mem_lookup hpk
  obtain rfl := hm.node_unique (Buckets.mem_items_iff.mpr ⟨_, hn'⟩) hn hp' hp
  exact hbucket (hm.placed.placed _ _ hn').symm

/-! ## What the operations do -/

/-- The nodes after a new key has been inserted, and the size of the table. -/
theorem multimapInsert_new (h0 : 0 < m.hashTab.tableSz) {key : K} {val : V} {r : Bool}
    (hnew : hashLookup f m.hashTab key = none) (h : multimapInsert f m key val = .ok (r, m')) :
    (∀ n, n ∈ m'.hashTab.nodes ↔ n ∈ (m.inserted f key val).nodes) ∧
      m'.hashTab.tableSz = m.sizeAfter f (.insert key val) := by
  rcases multimapInsert_ok h with ⟨node, hl, -, -⟩ | ⟨tab, -, -, htab, rfl⟩
  · exact absurd (hnew.symm.trans hl) (by simp)
  · have hgrows : m.grows f (.insert key val) =
        growsAt m.hashTab key (MultimapNode.single (m.newPair key val))
          (f.bucket key m.hashTab.tableSz) := by
      rw [grows, hnew]
      rfl
    rw [sizeAfter, hgrows]
    rcases hashInternalInsertNew_ok h0 htab with ⟨hg, rfl⟩ | ⟨hg, rfl⟩
    · exact ⟨fun n => Iff.rfl, by simp [hg]⟩
    · exact ⟨fun n => mem_nodes_relinkAll (by omega), by simp [hg]⟩

/-- Inserting under a key that is there changes the cells of one node. -/
theorem multimapInsert_old {key : K} {val : V} {r : Bool} {node : MultimapNode K V}
    (hold : hashLookup f m.hashTab key = some node)
    (h : multimapInsert f m key val = .ok (r, m')) :
    m'.hashTab.tableSz = m.hashTab.tableSz ∧
      ∀ n' ∈ m'.hashTab.nodes, ∃ n ∈ m.hashTab.nodes, n.key = n'.key ∧
        (n.pairs ≠ [] → n'.pairs ≠ []) := by
  rcases multimapInsert_ok h with ⟨node, -, -, rfl⟩ | ⟨tab, hl, -, -, -⟩
  · obtain ⟨i, hp, -⟩ := hashLookup_eq_some hold
    refine ⟨by simp, fun n' hn' => ?_⟩
    rcases (mem_nodes_hashSetData hp).mp hn' with rfl | hrest
    · exact ⟨_, (mem_nodes_iff_unlink hp).mpr (Or.inl rfl), rfl, fun _ => List.cons_ne_nil _ _⟩
    · exact ⟨n', (mem_nodes_iff_unlink hp).mpr (Or.inr hrest), rfl, id⟩
  · exact absurd (hold.symm.trans hl) (by simp)

/-- A deletion leaves no node without cells that was not without before. -/
theorem nonempty_multimapDelete {key : K} {val : V} (h : ∀ n ∈ m.hashTab.nodes, n.pairs ≠ [])
    {n : HashNode K (MultimapNode K V)}
    (hn : n ∈ (multimapDelete f compareVal m key val).2.hashTab.nodes) : n.pairs ≠ [] := by
  rcases multimapDelete_cases f compareVal m key val with
    ⟨-, hd⟩ | ⟨node, i, -, hp, -, hd⟩ | ⟨node, i, -, hp, hk, hd⟩
  · rw [hd] at hn
    exact h n hn
  · rw [hd] at hn
    exact h n ((mem_nodes_iff_unlink hp).mpr (Or.inr hn))
  · rw [hd] at hn
    rcases (mem_nodes_hashSetData hp).mp hn with rfl | hrest
    · exact hk
    · exact h n ((mem_nodes_iff_unlink hp).mpr (Or.inr hrest))

/-- **No operation leaves a node without cells.** -/
theorem nonempty_multimapStep {op : MultimapOp K V} (h0 : 0 < m.hashTab.tableSz)
    (hne : ∀ n ∈ m.hashTab.nodes, n.pairs ≠ []) (h : multimapStep f compareVal m op = .ok m') :
    ∀ n ∈ m'.hashTab.nodes, n.pairs ≠ [] := by
  intro n hn
  cases op with
  | insert key val =>
    obtain ⟨⟨r, m''⟩, hins, rfl⟩ := map_eq_ok h
    cases hl : hashLookup f m.hashTab key with
    | some node =>
      obtain ⟨n₀, hn₀, -, hkept⟩ := (multimapInsert_old hl hins).2 n hn
      exact hkept (hne n₀ hn₀)
    | none =>
      have hmem := ((multimapInsert_new h0 hl hins).1 n).mp hn
      rcases (mem_nodes_appendNode (f.bucket_lt key h0)).mp hmem with rfl | hold
      · exact List.cons_ne_nil _ _
      · exact hne n hold
  | delete key val =>
    obtain rfl := Except.ok.inj h
    exact nonempty_multimapDelete hne hn
  | deleteAll key =>
    obtain rfl := Except.ok.inj h
    exact hne n (mem_nodes_deleteAll hn)

theorem tableSz_multimapDeleteAll (f : HashEnv K) (m : Multimap K V) (key : K) :
    (multimapDeleteAll f m key).2.hashTab.tableSz = m.hashTab.tableSz := by
  rcases multimapDeleteAll_cases f m key with ⟨-, hd⟩ | ⟨node, i, -, -, hd⟩
  · rw [hd]
  · rw [hd]
    exact tableSz_unlink m.hashTab _ i

/-- **An operation keeps all keys settled** if it inserts no unsettled one. -/
theorem allSettled_step (hf : Equivalence f.Same) {op : MultimapOp K V} (hm : m.AllSettled f)
    (hop : m.InsertsSettled f op) (h : multimapStep f compareVal m op = .ok m') :
    m'.AllSettled f := by
  refine ⟨regular_step hf hm.toRegular h,
    nonempty_multimapStep hm.placed.size_pos hm.nonempty h, fun n hn => ?_⟩
  · cases op with
    | insert key val =>
      obtain ⟨⟨r, m''⟩, hins, rfl⟩ := map_eq_ok h
      cases hl : hashLookup f m.hashTab key with
      | some node =>
        obtain ⟨hsz, hnodes⟩ := multimapInsert_old hl hins
        obtain ⟨n₀, hn₀, hkey, -⟩ := hnodes n hn
        rw [hsz, ← hkey]
        exact hm.settled n₀ hn₀
      | none =>
        obtain ⟨hnodes, hsz⟩ := multimapInsert_new hm.placed.size_pos hl hins
        rw [hsz]
        exact hop hl n ((hnodes n).mp hn)
    | delete key val =>
      obtain rfl := Except.ok.inj h
      obtain ⟨n₀, hn₀, hkey, -⟩ := exists_node_of_mem_delete hn
      rw [tableSz_multimapDelete, ← hkey]
      exact hm.settled n₀ hn₀
    | deleteAll key =>
      obtain rfl := Except.ok.inj h
      rw [tableSz_multimapDeleteAll]
      exact hm.settled n (mem_nodes_deleteAll hn)

/-- An insertion that leaves a key unsettled lets a spelling of it be told apart. -/
theorem not_ignoresSpelling_of_step (hf : Equivalence f.Same) {op : MultimapOp K V}
    (hm : m.AllSettled f) (hop : ¬ m.InsertsSettled f op)
    (h : multimapStep f compareVal m op = .ok m') : ¬ m'.IgnoresSpelling f := by
  have hm' := regular_step hf hm.toRegular h
  cases op with
  | insert key val =>
    rw [InsertsSettled] at hop
    push Not at hop
    obtain ⟨hl, n, hn, hunsettled⟩ := hop
    obtain ⟨⟨r, m''⟩, hins, rfl⟩ := map_eq_ok h
    obtain ⟨hnodes, hsz⟩ := multimapInsert_new hm.placed.size_pos hl hins
    refine not_ignoresSpelling hf hm' ((hnodes n).mpr hn) ?_ (by rwa [hsz])
    rcases (mem_nodes_appendNode (f.bucket_lt key hm.placed.size_pos)).mp hn with rfl | hold
    · exact List.cons_ne_nil _ _
    · exact hm.nonempty n hold
  | delete key val => exact absurd trivial hop
  | deleteAll key => exact absurd trivial hop

/-- **When spellings are ignored**, for any hash function and any comparison that is an
equivalence: in every state of a run exactly when every insertion the run completes
leaves all keys settled. -/
theorem ignoresSpelling_iff (hf : Equivalence f.Same) (compareVal : V → V → ℤ) (sz : ℕ)
    (ops : List (MultimapOp K V)) :
    Runs.Always (multimapStep f compareVal) (IgnoresSpelling f) (multimapInit sz) ops ↔
      Runs.EachDone (multimapStep f compareVal) (InsertsSettled f) (multimapInit sz) ops := by
  refine Runs.always_iff_eachDone (I := AllSettled f) (fun m hm => hm.ignoresSpelling hf)
    (fun m op m' hm hop h => allSettled_step hf hm hop h)
    (fun m op m' hm hop h => not_ignoresSpelling_of_step hf hm hop h) ?_
  exact ⟨regular_init f sz, by simp [multimapInit, hashInit], by simp [multimapInit, hashInit]⟩

/-! ## Sizes at which every name is settled -/

/-- A byte and its lower-case form have the same low five bits. -/
theorem lower_toNat_mod (c : UInt8) : (lower c).toNat % 32 = c.toNat % 32 := by
  unfold lower
  split
  · rename_i hc
    have h1 := UInt8.le_iff_toNat_le.mp hc.1
    have h2 := UInt8.le_iff_toNat_le.mp hc.2
    rw [UInt8.toNat_add]
    simp at h1 h2 ⊢
  · rfl

/-- The low five bits of a `char` are not touched by its promotion. -/
theorem signExtend_toNat_mod (c : UInt8) : (signExtend c).toNat % 32 = c.toNat % 32 := by
  unfold signExtend
  split
  · simp
  · rw [UInt32.toNat_or, show (32 : ℕ) = 2 ^ 5 from rfl, Nat.or_mod_two_pow]
    simp

/-- The low five bits of the hash depend only on those of the bytes. -/
theorem djbStep_toNat_mod {h h' : UInt32} {c c' : UInt8} (hh : h.toNat % 32 = h'.toNat % 32)
    (hc : c.toNat % 32 = c'.toNat % 32) :
    (djbStep h c).toNat % 32 = (djbStep h' c').toNat % 32 := by
  have hmul : ∀ x : UInt32, ((x <<< 5) + x).toNat % 32 = x.toNat % 32 := by
    intro x
    rw [UInt32.toNat_add, UInt32.toNat_shiftLeft]
    simp only [Nat.shiftLeft_eq]
    have h5 : (5 : UInt32).toNat % 32 = 5 := rfl
    rw [h5]
    omega
  rw [djbStep, djbStep, UInt32.toNat_xor, UInt32.toNat_xor]
  rw [show (32 : ℕ) = 2 ^ 5 from rfl, Nat.xor_mod_two_pow, Nat.xor_mod_two_pow]
  rw [show (2 : ℕ) ^ 5 = 32 from rfl, hmul, hmul, hh, signExtend_toNat_mod,
    signExtend_toNat_mod, hc]

/-- **The low five bits of `hash_djb` do not depend on case.** -/
theorem hashDjb_toNat_mod {a b : CString} (h : a.bytes.map lower = b.bytes.map lower) :
    (hashDjb a).toNat % 32 = (hashDjb b).toNat % 32 := by
  suffices hs : ∀ (s t : List UInt8) (x y : UInt32), s.map lower = t.map lower →
      x.toNat % 32 = y.toNat % 32 →
      (s.foldl djbStep x).toNat % 32 = (t.foldl djbStep y).toNat % 32 from
    hs a.bytes b.bytes 5381 5381 h rfl
  intro s
  induction s with
  | nil =>
    intro t x y hst hxy
    obtain rfl : t = [] := List.map_eq_nil_iff.mp hst.symm
    exact hxy
  | cons c s ih =>
    intro t x y hst hxy
    cases t with
    | nil => exact absurd hst (by simp)
    | cons d t =>
      obtain ⟨hcd, hst'⟩ := List.cons.inj hst
      refine ih t _ _ hst' (djbStep_toNat_mod hxy ?_)
      rw [← lower_toNat_mod c, hcd, lower_toNat_mod]

/-- **At the sizes that divide `32` every name is settled.** -/
theorem settled_of_dvd {asserts : Bool} {sz : ℕ} (h : sz ∣ 32) (key : CString) :
    Settled (roomEnv asserts) sz key := by
  intro k hs
  have hmod := hashDjb_toNat_mod (roomEnv_same_iff.mp hs)
  show (hashDjb k).toNat % sz = (hashDjb key).toNat % sz
  rw [← Nat.mod_mod_of_dvd _ h, ← hmod, Nat.mod_mod_of_dvd _ h]

/-- In any table whose size divides `32` both spellings of a name find the same. -/
theorem hashLookup_nocase {D : Type*} (asserts : Bool) {m : HashMap CString D}
    (hsz : m.tableSz ∣ 32) {s t : CString} (h : compareStringsNocase s t = 0) :
    hashLookup (roomEnv asserts) m s = hashLookup (roomEnv asserts) m t := by
  have hs : (roomEnv asserts).Same t s := (roomEnv_equivalence asserts).symm h
  have hbucket := settled_of_dvd hsz t s hs
  have hsame : ∀ n : HashNode CString D,
      decide ((roomEnv asserts).Same s n.key) = decide ((roomEnv asserts).Same t n.key) := fun n =>
    decide_eq_decide.mpr ⟨(roomEnv_equivalence asserts).trans hs,
      (roomEnv_equivalence asserts).trans ((roomEnv_equivalence asserts).symm hs)⟩
  rw [hashLookup, hashLookup, hbucket]
  exact congrArg (fun p => Option.map HashNode.data (List.find? p _)) (funext hsame)

/-- **`hash_djb` ignores case modulo `32`**, and so modulo every size of a table that divides `32`; in such
a table a name is found in whatever case it is spelled. -/
theorem hashDjb_nocase {s t : CString} (h : compareStringsNocase s t = 0) :
    (hashDjb s).toNat % 32 = (hashDjb t).toNat % 32 ∧
      (∀ sz, sz ∣ 32 → (hashDjb s).toNat % sz = (hashDjb t).toNat % sz) ∧
      ∀ (D : Type) (asserts : Bool) (m : HashMap CString D), m.tableSz ∣ 32 →
        hashLookup (roomEnv asserts) m s = hashLookup (roomEnv asserts) m t := by
  have hmod := hashDjb_toNat_mod (compareStringsNocase_eq_zero_iff.mp h)
  refine ⟨hmod, fun sz hsz => ?_, fun D asserts m hsz => hashLookup_nocase asserts hsz h⟩
  rw [← Nat.mod_mod_of_dvd _ hsz, hmod, Nat.mod_mod_of_dvd _ hsz]

/-- `SWORD` and `sword`. -/
theorem hashDjb_nocase_sword :
    (hashDjb (.ofChars "SWORD".toList)).toNat % 32 = (hashDjb (.ofChars "sword".toList)).toNat % 32 :=
  (hashDjb_nocase (s := .ofChars "SWORD".toList) (t := .ofChars "sword".toList) (by decide)).1

/-- The bound is sharp: one letter is told apart modulo `64`. -/
theorem hashDjb_case_mod_64 : compareStringsNocase (letter 97) (letter 65) = 0 ∧
    (hashDjb (letter 97)).toNat % 64 ≠ (hashDjb (letter 65)).toNat % 64 := ⟨by decide, by decide⟩

/-- **While the size of the table divides `32`, spellings are ignored.** -/
theorem ignoresSpelling_while_small (asserts : Bool) (compareVal : V → V → ℤ) {sz : ℕ}
    {ops : List (MultimapOp CString V)}
    (h : Runs.EachDone (multimapStep (roomEnv asserts) compareVal)
      (fun m op => m.sizeAfter (roomEnv asserts) op ∣ 32) (multimapInit sz) ops) :
    Runs.Always (multimapStep (roomEnv asserts) compareVal) (IgnoresSpelling (roomEnv asserts))
      (multimapInit sz) ops := by
  refine (ignoresSpelling_iff (roomEnv_equivalence asserts) compareVal sz ops).mpr ?_
  refine Runs.EachStep.imp ?_ h
  intro m op hsz m' hm'
  cases op with
  | insert key val => exact fun _ n _ => settled_of_dvd (hsz m' hm') n.key
  | delete key val => trivial
  | deleteAll key => trivial

/-- **Object names and their spellings.**  The map is configured as room and inventory maps
are, with any initial size, and may take any insertions and deletions.  All spellings of
all names find the same list and the same number in every state exactly when every
insertion of a new name leaves the names of all nodes settled at the size of the table. -/
theorem roomMultimap_ignoresSpelling_iff (asserts : Bool) (compareVal : V → V → ℤ) (sz : ℕ)
    (ops : List (MultimapOp CString V)) :
    Runs.Always (multimapStep (roomEnv asserts) compareVal) (IgnoresSpelling (roomEnv asserts))
        (multimapInit sz) ops ↔
      Runs.EachDone (multimapStep (roomEnv asserts) compareVal)
        (InsertsSettled (roomEnv asserts)) (multimapInit sz) ops :=
  ignoresSpelling_iff (roomEnv_equivalence asserts) compareVal sz ops

/-- An inventory read back with three objects, `a`, `b` and `c`: it is created with three
buckets, and `A` is not found in it. -/
theorem inventory_tells_spellings_apart :
    ¬ Runs.Always (multimapStep (roomEnv true) fun a b : ℤ => a - b)
      (IgnoresSpelling (roomEnv true)) (multimapInit (min 8 3))
      [.insert (letter 97) 0, .insert (letter 98) 1, .insert (letter 99) 2] := by
  intro h
  have hrun : (match Runs.run (multimapStep (roomEnv true) fun a b : ℤ => a - b)
      (multimapInit (min 8 3))
      [.insert (letter 97) 0, .insert (letter 98) 1, .insert (letter 99) 2] with
    | .ok m => (multimapLookup (roomEnv true) m (letter 97)).2 == 1 &&
        (multimapLookup (roomEnv true) m (letter 65)).2 == 0
    | .error _ => false) = true := by decide +kernel
  cases hr : Runs.run (multimapStep (roomEnv true) fun a b : ℤ => a - b)
      (multimapInit (min 8 3))
      [.insert (letter 97) 0, .insert (letter 98) 1, .insert (letter 99) 2] with
  | error e => rw [hr] at hrun; exact absurd hrun (by simp)
  | ok m =>
    rw [hr] at hrun
    have hlow : (multimapLookup (roomEnv true) m (letter 97)).2 = 1 ∧
        (multimapLookup (roomEnv true) m (letter 65)).2 = 0 := by simpa using hrun
    have hsame := (h.last hr) (letter 97) (letter 65) (by decide)
    rw [hsame] at hlow
    omega

end NetCosm
