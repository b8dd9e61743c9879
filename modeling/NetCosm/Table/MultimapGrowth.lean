import NetCosm.Library.Outcome
import NetCosm.Table.MultimapCounter
import NetCosm.Table.MultimapLookup

/-!
# Growths that do no harm

A multimap can go wrong only when its table grows: the growth may not end, it may
abort, and it may separate keys from their nodes.  `GrowsWell` says of an operation
that it is no such growth.  Operations that grow well complete and keep the map
sound (`sound_run_of_growsWell`), and this is what is used of multimaps where
objects are moved between them.
-/

namespace NetCosm

universe u v

variable {K : Type u} {V : Type v}

/-- If the operation makes the table grow, the loop of `hash_resize` reaches the end
of the table, the entry counter is right if it is looked at, and no cell is
separated from its node. -/
structure Multimap.GrowsWell (f : HashEnv K) (m : Multimap K V) (op : MultimapOp K V) : Prop where
  ends : m.grows f op = true → m.hashTab.tableSz < unsignedRange
  counts : f.asserts = true → m.GrowthCountsAgree f op
  keys : m.KeepsKeysTogether f op

open Multimap

instance (f : HashEnv K) (m : Multimap K V) (op : MultimapOp K V) :
    Decidable (m.GrowthCountsAgree f op) :=
  match op with
  | .insert key val =>
      inferInstanceAs (Decidable (m.grows f (.insert key val) = true →
        (m.inserted f key val).nEntries = UInt64.ofNat (m.inserted f key val).stored))
  | .delete _ _ | .deleteAll _ => .isTrue trivial

instance (f : HashEnv K) (m : Multimap K V) (op : MultimapOp K V) : Decidable (m.GrowsWell f op) :=
  decidable_of_iff ((m.grows f op = true → m.hashTab.tableSz < unsignedRange) ∧
      (f.asserts = true → m.GrowthCountsAgree f op) ∧ m.KeepsKeysTogether f op)
    ⟨fun h => ⟨h.1, h.2.1, h.2.2⟩, fun h => ⟨h.ends, h.counts, h.keys⟩⟩

/-- An operation that grows well completes. -/
theorem sat_multimapStep {f : HashEnv K} {compareVal : V → V → ℤ} {m : Multimap K V}
    {op : MultimapOp K V} (h0 : 0 < m.hashTab.tableSz) (hg : m.GrowsWell f op) :
    Sat (fun _ => False) (multimapStep f compareVal m op)
      fun m' => multimapStep f compareVal m op = .ok m' := by
  cases hstep : multimapStep f compareVal m op with
  | ok m' => exact sat_ok rfl
  | error e =>
    rcases multimapStep_error hstep with rfl | rfl
    · obtain ⟨hasserts, hdiffer⟩ := not_growthCountsAgree_of_assertion h0 hstep
      exact hdiffer (hg.counts hasserts)
    · cases op with
      | insert key val =>
        obtain ⟨hgrows, hresize⟩ := multimapInsert_error (map_eq_error hstep)
        have hle := hashResize_endlessLoop hresize
        rw [Multimap.inserted, tableSz_appendNode] at hle
        exact absurd (hg.ends hgrows) (Nat.not_lt_of_le hle)
      | delete key val => exact absurd hstep (by simp [multimapStep])
      | deleteAll key => exact absurd hstep (by simp [multimapStep])

/-- An operation that grows well keeps a map sound. -/
theorem sound_multimapStep {f : HashEnv K} (hf : Equivalence f.Same) {compareVal : V → V → ℤ}
    {m m' : Multimap K V} {op : MultimapOp K V} (hm : m.Sound f) (hg : m.GrowsWell f op)
    (h : multimapStep f compareVal m op = .ok m') : m'.Sound f := by
  cases op with
  | insert key val =>
    obtain ⟨⟨r, m''⟩, hins, rfl⟩ := map_eq_ok h
    exact sound_insert hf hm hg.keys hins
  | delete key val =>
    obtain rfl := Except.ok.inj h
    exact sound_delete hm compareVal key val
  | deleteAll key =>
    obtain rfl := Except.ok.inj h
    exact sound_deleteAll hm key

/-- **Operations that grow well complete and keep a map sound.** -/
theorem sound_run_of_growsWell {f : HashEnv K} (hf : Equivalence f.Same)
    {compareVal : V → V → ℤ} {m : Multimap K V} {ops : List (MultimapOp K V)} (hm : m.Sound f)
    (hg : Runs.EachStep (multimapStep f compareVal) (GrowsWell f) m ops) :
    ∃ m', Runs.run (multimapStep f compareVal) m ops = .ok m' ∧ m'.Sound f := by
  have hstep : ∀ (m : Multimap K V) (op : MultimapOp K V), m.Sound f → m.GrowsWell f op →
      Sat (fun _ => False) (multimapStep f compareVal m op) fun m' => m'.Sound f :=
    fun m op hm hg => (sat_multimapStep hm.placed.size_pos hg).mono fun m' h =>
      sound_multimapStep hf hm hg h
  obtain ⟨halways, herror⟩ := Runs.sat_always hstep hm hg
  cases hrun : Runs.run (multimapStep f compareVal) m ops with
  | ok m' => exact ⟨m', rfl, halways.last hrun⟩
  | error e => exact (herror e hrun).elim

/-- A deletion grows nothing. -/
theorem growsWell_delete (f : HashEnv K) (m : Multimap K V) (key : K) (val : V) :
    m.GrowsWell f (.delete key val) :=
  ⟨fun h => absurd h (by simp [grows]), fun _ => trivial, trivial⟩

end NetCosm
