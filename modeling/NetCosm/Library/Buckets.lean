import Mathlib.Data.List.Basic
import Mathlib.Data.List.Flatten
import Mathlib.Tactic

/-!
# Tables of chains

A chained table is a list of chains, and a chain is a list of items.  Nothing in
this file knows what an item is or how its chain is chosen: it is the bookkeeping
every chained table needs, over an arbitrary item type.

* `chain t b` is the chain in bucket `b`, and `items t` is everything stored.
* `occupied t` is the number of buckets that are not empty.
* `length_items_set` and `occupied_set` say what replacing one chain does to the
  two counts.  Both are written without subtraction, so that `omega` can use them
  whichever way the count moves.
* `redistribute idx n xs` deals the items `xs` into `n` empty buckets, each pushed
  on the front of bucket `idx x`.  `chain_redistribute` reads a bucket of the
  result off: it is the items with that index, last dealt first.
-/

namespace NetCosm
namespace Buckets

universe u

variable {α : Type u}

/-- The chain in bucket `b`; past the end of the table there is nothing. -/
def chain (t : List (List α)) (b : ℕ) : List α := t.getD b []

/-- Everything stored, bucket by bucket. -/
def items (t : List (List α)) : List α := t.flatten

/-- The number of buckets that hold something. -/
def occupied (t : List (List α)) : ℕ := t.countP fun c => !c.isEmpty

theorem chain_set_self {t : List (List α)} {b : ℕ} (hb : b < t.length) (c : List α) :
    chain (t.set b c) b = c := by
  simp [chain, hb]

theorem chain_set_ne {t : List (List α)} {b b' : ℕ} (h : b' ≠ b) (c : List α) :
    chain (t.set b c) b' = chain t b' := by
  simp [chain, List.getElem?_set_ne (Ne.symm h)]

theorem chain_eq_getElem {t : List (List α)} {b : ℕ} (hb : b < t.length) :
    chain t b = t[b] := by
  simp [chain, hb]

theorem chain_eq_nil {t : List (List α)} {b : ℕ} (hb : t.length ≤ b) : chain t b = [] := by
  simp [chain, hb]

theorem lt_length_of_mem_chain {t : List (List α)} {b : ℕ} {x : α} (h : x ∈ chain t b) :
    b < t.length := by
  by_contra hb
  rw [chain, List.getD_eq_getElem?_getD, List.getElem?_eq_none (Nat.le_of_not_lt hb)] at h
  exact absurd h (by simp)

/-- An item is stored exactly when some bucket holds it. -/
theorem mem_items_iff {t : List (List α)} {x : α} : x ∈ items t ↔ ∃ b, x ∈ chain t b := by
  rw [items, List.mem_flatten]
  constructor
  · rintro ⟨c, hc, hx⟩
    obtain ⟨b, hb, rfl⟩ := List.mem_iff_getElem.mp hc
    exact ⟨b, by rwa [chain_eq_getElem hb]⟩
  · rintro ⟨b, hx⟩
    have hb := lt_length_of_mem_chain hx
    rw [chain_eq_getElem hb] at hx
    exact ⟨t[b], List.getElem_mem hb, hx⟩

/-- If every item lies in the bucket `idx` names, the items of that index are the
bucket, in its order. -/
theorem filter_items {idx : α → ℕ} {t : List (List α)} {b : ℕ}
    (h : ∀ b, ∀ x ∈ chain t b, idx x = b) :
    ((items t).filter fun x => idx x == b) = chain t b := by
  suffices hs : ∀ (t : List (List α)) (k : ℕ), (∀ b, ∀ x ∈ chain t b, idx x = k + b) →
      ∀ b, ((items t).filter fun x => idx x == k + b) = chain t b by
    simpa using hs t 0 (by simpa using h) b
  intro t
  induction t with
  | nil => intro k _ b; rfl
  | cons c t ih =>
    intro k hk b
    have hc : ∀ x ∈ c, idx x = k := fun x hx => hk 0 x hx
    have ht : ∀ b, ∀ x ∈ chain t b, idx x = k + 1 + b := fun b x hx => by
      rw [hk (b + 1) x hx]
      omega
    rw [items, List.flatten_cons, List.filter_append]
    cases b with
    | zero =>
      have hrest : ((items t).filter fun x => idx x == k + 0) = [] := by
        rw [List.filter_eq_nil_iff]
        intro x hx
        obtain ⟨b, hb⟩ := mem_items_iff.mp hx
        rw [ht b x hb]
        simp
        omega
      rw [show t.flatten = items t from rfl, hrest, List.append_nil]
      exact List.filter_eq_self.mpr fun x hx => by simp [hc x hx]
    | succ b =>
      have hhead : (c.filter fun x => idx x == k + (b + 1)) = [] := by
        rw [List.filter_eq_nil_iff]
        intro x hx
        rw [hc x hx]
        simp
      have h1 := ih (k + 1) ht b
      rw [hhead, List.nil_append, show k + (b + 1) = k + 1 + b by omega]
      exact h1

/-! ## The two counts -/

/-- **Replacing one chain**, up to the order of the items: what was in the bucket
goes, and what is put there comes. -/
theorem perm_items_set {t : List (List α)} {b : ℕ} (hb : b < t.length) (c : List α) :
    (chain t b ++ items (t.set b c)).Perm (c ++ items t) := by
  induction t generalizing b with
  | nil => exact absurd hb (by simp)
  | cons d t ih =>
    cases b with
    | zero =>
      simp only [chain, items, List.set_cons_zero, List.flatten_cons, List.getD_cons_zero]
      rw [← List.append_assoc, ← List.append_assoc]
      exact List.perm_append_comm.append_right t.flatten
    | succ b =>
      have h := ih (b := b) (by simpa using hb)
      simp only [chain, items, List.set_cons_succ, List.flatten_cons, List.getD_cons_succ] at h ⊢
      calc (t.getD b [] ++ (d ++ (t.set b c).flatten)).Perm
            (d ++ (t.getD b [] ++ (t.set b c).flatten)) := List.perm_append_comm_assoc _ _ _
        _ |>.Perm (d ++ (c ++ t.flatten)) := h.append_left d
        _ |>.Perm (c ++ (d ++ t.flatten)) := List.perm_append_comm_assoc _ _ _

/-- What replacing one chain does to the number of items. -/
theorem length_items_set {t : List (List α)} {b : ℕ} (hb : b < t.length) (c : List α) :
    (items (t.set b c)).length + (chain t b).length = (items t).length + c.length := by
  have h := (perm_items_set hb c).length_eq
  rw [List.length_append, List.length_append] at h
  omega

/-- What replacing one chain does to the number of occupied buckets. -/
theorem occupied_set {t : List (List α)} {b : ℕ} (hb : b < t.length) (c : List α) :
    occupied (t.set b c) + (!(chain t b).isEmpty).toNat =
      occupied t + (!c.isEmpty).toNat := by
  induction t generalizing b with
  | nil => exact absurd hb (by simp)
  | cons d t ih =>
    cases b with
    | zero =>
      simp only [occupied, chain, List.set_cons_zero, List.countP_cons, List.getD_cons_zero]
      cases c.isEmpty <;> cases d.isEmpty <;> simp
    | succ b =>
      have h := ih (b := b) (by simpa using hb)
      simp only [occupied, chain, List.set_cons_succ, List.countP_cons,
        List.getD_cons_succ] at h ⊢
      omega

@[simp] theorem items_replicate_nil (n : ℕ) : items (List.replicate n ([] : List α)) = [] := by
  simp [items]

@[simp] theorem occupied_replicate_nil (n : ℕ) :
    occupied (List.replicate n ([] : List α)) = 0 := by
  simp [occupied, List.countP_replicate]

@[simp] theorem chain_replicate_nil (n b : ℕ) :
    chain (List.replicate n ([] : List α)) b = [] := by
  simp only [chain, List.getD_eq_getElem?_getD, List.getElem?_replicate]
  split <;> rfl

/-! ## Dealing items into empty buckets -/

/-- Push one item on the front of bucket `b`. -/
def push (b : ℕ) (x : α) (t : List (List α)) : List (List α) := t.set b (x :: chain t b)

@[simp] theorem length_push (b : ℕ) (x : α) (t : List (List α)) :
    (push b x t).length = t.length := by
  simp [push]

/-- Deal `xs` into `n` empty buckets, item `x` on the front of bucket `idx x`. -/
def redistribute (idx : α → ℕ) (n : ℕ) (xs : List α) : List (List α) :=
  xs.foldl (fun t x => push (idx x) x t) (List.replicate n [])

/-- Dealing on top of a table that is already there: the new items of a bucket
come first, last dealt at the very front. -/
theorem chain_foldl_push (idx : α → ℕ) (xs : List α) (t : List (List α)) {b : ℕ}
    (hb : b < t.length) :
    chain (xs.foldl (fun t x => push (idx x) x t) t) b =
      (xs.filter fun x => idx x == b).reverse ++ chain t b := by
  induction xs generalizing t with
  | nil => simp
  | cons x xs ih =>
    rw [List.foldl_cons, ih (push (idx x) x t) (by simpa using hb)]
    by_cases hx : idx x = b
    · subst hx
      rw [push, chain_set_self hb, List.filter_cons_of_pos (by simp)]
      simp
    · rw [push, chain_set_ne (Ne.symm hx), List.filter_cons_of_neg (by simpa using hx)]

/-- **A bucket after dealing** is the items with that index, last dealt first. -/
theorem chain_redistribute (idx : α → ℕ) {n : ℕ} (xs : List α) {b : ℕ} (hb : b < n) :
    chain (redistribute idx n xs) b = (xs.filter fun x => idx x == b).reverse := by
  rw [redistribute, chain_foldl_push idx xs _ (by simpa using hb)]
  simp

theorem perm_items_push {t : List (List α)} {b : ℕ} (hb : b < t.length) (x : α) :
    (items (push b x t)).Perm (x :: items t) := by
  have h := perm_items_set hb (x :: chain t b)
  refine (List.perm_append_left_iff (chain t b)).mp (h.trans ?_)
  rw [List.cons_append]
  exact List.perm_middle.symm

/-- **Dealing loses nothing**: the items of the new table are those dealt. -/
theorem perm_items_redistribute {idx : α → ℕ} {n : ℕ} (hidx : ∀ x, idx x < n) (xs : List α) :
    (items (redistribute idx n xs)).Perm xs := by
  suffices h : ∀ t : List (List α), t.length = n →
      (items (xs.foldl (fun t x => push (idx x) x t) t)).Perm (xs ++ items t) by
    simpa [redistribute] using h (List.replicate n []) (by simp)
  induction xs with
  | nil => intro t _; exact List.Perm.refl _
  | cons x xs ih =>
    intro t ht
    rw [List.foldl_cons]
    refine (ih _ (by simpa using ht)).trans ?_
    refine ((perm_items_push (ht ▸ hidx x) x).append_left xs).trans ?_
    exact List.perm_middle

@[simp] theorem length_redistribute (idx : α → ℕ) (n : ℕ) (xs : List α) :
    (redistribute idx n xs).length = n := by
  suffices h : ∀ t : List (List α),
      (xs.foldl (fun t x => push (idx x) x t) t).length = t.length by
    simpa [redistribute] using h (List.replicate n [])
  induction xs with
  | nil => simp
  | cons x xs ih => intro t; rw [List.foldl_cons, ih]; simp

end Buckets
end NetCosm
