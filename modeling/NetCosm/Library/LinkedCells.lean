import Mathlib.Data.Finset.Card
import Mathlib.Data.List.Basic
import Mathlib.Data.List.Nodup
import Mathlib.Tactic

/-!
# A store of linked cells

`Cells α` is a store of cells, each a payload of type `α` and the address of the next cell.
An address holds a cell or nothing: it holds nothing before it is allocated and after it
is freed, and addresses are allocated in order and never twice.  That addresses past
`fresh` hold nothing is a field of the store.

`Seg σ p l q` says that from `p` the list `l` can be read off the store, and that the last
next pointer is `q`; with `q = none` it is a whole list.  The list carries the addresses
of its cells, so it says where the list lies as well as what is in it.

* `seg_append` cuts a segment in two, which is how a loop in the middle of a list is
  described.
* `Seg.congr` is the frame rule: a segment depends on its own cells only.
* `Seg.relink` says what writing the next pointer of the last cell does.
* `length_le_fresh` bounds the length of a list by the number of addresses, which is what
  makes a bound on the number of rounds of a loop a harmless one.
-/

namespace NetCosm

universe u

/-- A store of linked cells with payload `α`. -/
structure Cells (α : Type u) where
  /-- The payload and the next pointer of the cell at an address, if there is one. -/
  cell : ℕ → Option (α × Option ℕ)
  /-- The next address to be allocated. -/
  fresh : ℕ
  bounded : ∀ a, fresh ≤ a → cell a = none

namespace Cells

variable {α : Type u}

/-- The store without cells. -/
def empty : Cells α := ⟨fun _ => none, 0, fun _ _ => rfl⟩

/-- Allocate a cell, at the address `σ.fresh`. -/
def alloc (σ : Cells α) (x : α) (next : Option ℕ) : Cells α where
  cell a := if a = σ.fresh then some (x, next) else σ.cell a
  fresh := σ.fresh + 1
  bounded a ha := by
    rw [if_neg (by omega)]
    exact σ.bounded a (by omega)

/-- Write the next pointer of a cell. -/
def link (σ : Cells α) (a : ℕ) (next : Option ℕ) : Cells α where
  cell b := if b = a then (σ.cell b).map fun c => (c.1, next) else σ.cell b
  fresh := σ.fresh
  bounded b hb := by
    rw [σ.bounded b hb]
    split <;> rfl

/-- Free a cell. -/
def free (σ : Cells α) (a : ℕ) : Cells α where
  cell b := if b = a then none else σ.cell b
  fresh := σ.fresh
  bounded b hb := by
    rw [σ.bounded b hb]
    split <;> rfl

@[simp] theorem fresh_alloc (σ : Cells α) (x : α) (next : Option ℕ) :
    (σ.alloc x next).fresh = σ.fresh + 1 := rfl

@[simp] theorem fresh_link (σ : Cells α) (a : ℕ) (next : Option ℕ) :
    (σ.link a next).fresh = σ.fresh := rfl

@[simp] theorem fresh_free (σ : Cells α) (a : ℕ) : (σ.free a).fresh = σ.fresh := rfl

theorem cell_alloc_self (σ : Cells α) (x : α) (next : Option ℕ) :
    (σ.alloc x next).cell σ.fresh = some (x, next) := if_pos rfl

theorem cell_alloc_of_lt {σ : Cells α} {x : α} {next : Option ℕ} {a : ℕ} (h : a < σ.fresh) :
    (σ.alloc x next).cell a = σ.cell a := if_neg (Nat.ne_of_lt h)

theorem cell_link_self {σ : Cells α} {a : ℕ} {c : α × Option ℕ} (h : σ.cell a = some c)
    (next : Option ℕ) : (σ.link a next).cell a = some (c.1, next) := by
  rw [link]
  dsimp only
  rw [if_pos rfl, h]
  rfl

theorem cell_link_ne {σ : Cells α} {a b : ℕ} (h : b ≠ a) (next : Option ℕ) :
    (σ.link a next).cell b = σ.cell b := if_neg h

theorem cell_free_self (σ : Cells α) (a : ℕ) : (σ.free a).cell a = none := if_pos rfl

theorem cell_free_ne {σ : Cells α} {a b : ℕ} (h : b ≠ a) : (σ.free a).cell b = σ.cell b :=
  if_neg h

/-- A live cell has been allocated. -/
theorem lt_fresh {σ : Cells α} {a : ℕ} {c : α × Option ℕ} (h : σ.cell a = some c) :
    a < σ.fresh := by
  by_contra hlt
  rw [σ.bounded a (by omega)] at h
  exact absurd h (by simp)

/-! ## Segments -/

/-- From `p` the store reads `l`, and behind it the pointer `q`. -/
def Seg (σ : Cells α) : Option ℕ → List (ℕ × α) → Option ℕ → Prop
  | p, [], q => p = q
  | p, x :: l, q => p = some x.1 ∧ ∃ next, σ.cell x.1 = some (x.2, next) ∧ Seg σ next l q

@[simp] theorem seg_nil {σ : Cells α} {p q : Option ℕ} : Seg σ p [] q ↔ p = q := Iff.rfl

theorem seg_append {σ : Cells α} {p q : Option ℕ} {l l' : List (ℕ × α)} :
    Seg σ p (l ++ l') q ↔ ∃ r, Seg σ p l r ∧ Seg σ r l' q := by
  induction l generalizing p with
  | nil => exact ⟨fun h => ⟨p, rfl, h⟩, fun ⟨r, hr, h⟩ => hr ▸ h⟩
  | cons x l ih =>
    constructor
    · rintro ⟨hp, next, hcell, h⟩
      obtain ⟨r, hr, hr'⟩ := ih.mp h
      exact ⟨r, ⟨hp, next, hcell, hr⟩, hr'⟩
    · rintro ⟨r, ⟨hp, next, hcell, hr⟩, hr'⟩
      exact ⟨hp, next, hcell, ih.mpr ⟨r, hr, hr'⟩⟩

/-- The cells of a segment are live. -/
theorem Seg.cell_of_mem {σ : Cells α} {p q : Option ℕ} {l : List (ℕ × α)} (h : Seg σ p l q)
    {x : ℕ × α} (hx : x ∈ l) : ∃ next, σ.cell x.1 = some (x.2, next) := by
  induction l generalizing p with
  | nil => exact absurd hx (by simp)
  | cons y l ih =>
    obtain ⟨-, next, hcell, hrest⟩ := h
    rcases List.mem_cons.mp hx with rfl | hx'
    · exact ⟨next, hcell⟩
    · exact ih hrest hx'

/-- **The frame rule**: a segment depends on its own cells only. -/
theorem Seg.congr {σ σ' : Cells α} {p q : Option ℕ} {l : List (ℕ × α)} (h : Seg σ p l q)
    (hcell : ∀ x ∈ l, σ'.cell x.1 = σ.cell x.1) : Seg σ' p l q := by
  induction l generalizing p with
  | nil => exact h
  | cons x l ih =>
    obtain ⟨hp, next, hx, hrest⟩ := h
    refine ⟨hp, next, (hcell x (List.mem_cons_self ..)).trans hx, ih hrest ?_⟩
    exact fun y hy => hcell y (List.mem_cons_of_mem x hy)

/-- **Writing the next pointer of the last cell** of a segment moves its end. -/
theorem Seg.relink {σ : Cells α} {p q : Option ℕ} {l : List (ℕ × α)} {x : ℕ × α}
    (h : Seg σ p (l ++ [x]) q) (hx : x.1 ∉ l.map Prod.fst) (q' : Option ℕ) :
    Seg (σ.link x.1 q') p (l ++ [x]) q' := by
  obtain ⟨r, hl, hr, next, hcell, -⟩ := seg_append.mp h
  refine seg_append.mpr ⟨r, hl.congr fun y hy => cell_link_ne ?_ q', hr, q', ?_, rfl⟩
  · rintro heq
    exact hx (List.mem_map.mpr ⟨y, hy, heq⟩)
  · exact cell_link_self hcell q'

/-- A list without repetitions of live cells is no longer than there are addresses. -/
theorem Seg.length_le_fresh {σ : Cells α} {p q : Option ℕ} {l : List (ℕ × α)} (h : Seg σ p l q)
    (hnodup : (l.map Prod.fst).Nodup) : l.length ≤ σ.fresh := by
  have hsub : (l.map Prod.fst).toFinset ⊆ Finset.range σ.fresh := by
    intro a ha
    obtain ⟨x, hx, rfl⟩ := List.mem_map.mp (List.mem_toFinset.mp ha)
    obtain ⟨next, hcell⟩ := h.cell_of_mem hx
    exact Finset.mem_range.mpr (lt_fresh hcell)
  have hcard := Finset.card_le_card hsub
  rwa [List.toFinset_card_of_nodup hnodup, List.length_map, Finset.card_range] at hcard

end Cells
end NetCosm
