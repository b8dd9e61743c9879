import Mathlib.Data.Set.Finite.Basic
import Mathlib.Data.Quot
import Mathlib.Logic.Function.Basic

/-!
# Finite maps from classes of keys

A table that compares its keys by an equivalence relation is meant to be a finite map
from the classes of that relation.  `ClassMap r α` is such a map, over an arbitrary
setoid and an arbitrary type of values.  Keys are given by representatives: `M.get k` is
the value at the class of `k`, `M.put k a` changes the class of `k` to `a`, and
`M.erase k` takes the class out.

The lemmas say what each operation does to `get`; nothing else is known of these maps,
and `ext` says that nothing else need be known.
-/

namespace NetCosm

universe u v w

variable {K : Type u} {α : Type v} {β : Type w}

/-- A finite map from the classes of `r` to `α`. -/
structure ClassMap (r : Setoid K) (α : Type v) where
  /-- The value at a class. -/
  value : Quotient r → Option α
  finite : {q | value q ≠ none}.Finite

namespace ClassMap

variable {r : Setoid K}

/-- The value at the class of `k`. -/
def get (M : ClassMap r α) (k : K) : Option α := M.value (Quotient.mk r k)

@[ext] theorem ext {M N : ClassMap r α} (h : ∀ k, M.get k = N.get k) : M = N := by
  have hvalue : M.value = N.value := funext fun q => Quotient.inductionOn q h
  cases M
  cases N
  congr

/-- The map with no value anywhere. -/
def empty : ClassMap r α where
  value _ := none
  finite := by simp

@[simp] theorem get_empty (k : K) : (empty : ClassMap r α).get k = none := rfl

open scoped Classical in
/-- The map with `a` at the class of `k`. -/
noncomputable def put (M : ClassMap r α) (k : K) (a : α) : ClassMap r α where
  value := Function.update M.value (Quotient.mk r k) (some a)
  finite := by
    refine (M.finite.insert (Quotient.mk r k)).subset fun q hq => ?_
    by_cases h : q = Quotient.mk r k
    · exact Or.inl h
    · exact Or.inr (by simpa [Function.update_of_ne h] using hq)

open scoped Classical in
theorem get_put_same (M : ClassMap r α) {k k' : K} (h : r k k') (a : α) :
    (M.put k a).get k' = some a := by
  rw [get, ← Quotient.sound h]
  exact Function.update_self ..

open scoped Classical in
theorem get_put_other (M : ClassMap r α) {k k' : K} (h : ¬ r k k') (a : α) :
    (M.put k a).get k' = M.get k' :=
  Function.update_of_ne (fun he => h (r.symm (Quotient.exact he))) _ _

open scoped Classical in
/-- The map with nothing at the class of `k`. -/
noncomputable def erase (M : ClassMap r α) (k : K) : ClassMap r α where
  value := Function.update M.value (Quotient.mk r k) none
  finite := by
    refine M.finite.subset fun q hq => ?_
    by_cases h : q = Quotient.mk r k
    · exact absurd (by rw [h, Function.update_self]) hq
    · simpa [Function.update_of_ne h] using hq

open scoped Classical in
theorem get_erase_same (M : ClassMap r α) {k k' : K} (h : r k k') : (M.erase k).get k' = none := by
  rw [get, ← Quotient.sound h]
  exact Function.update_self ..

open scoped Classical in
theorem get_erase_other (M : ClassMap r α) {k k' : K} (h : ¬ r k k') :
    (M.erase k).get k' = M.get k' :=
  Function.update_of_ne (fun he => h (r.symm (Quotient.exact he))) _ _

/-- The image of a map. -/
def map (g : α → β) (M : ClassMap r α) : ClassMap r β where
  value q := (M.value q).map g
  finite := by
    refine M.finite.subset fun q hq => ?_
    simpa using hq

@[simp] theorem get_map (g : α → β) (M : ClassMap r α) (k : K) :
    (M.map g).get k = (M.get k).map g := rfl

end ClassMap
end NetCosm
