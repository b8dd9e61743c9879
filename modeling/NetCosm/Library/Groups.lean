import Mathlib.Algebra.BigOperators.Group.List.Basic
import Mathlib.Data.List.Perm.Basic
import Mathlib.Tactic

/-!
# Groups that are judged by their first item

A program that keeps its items in groups sometimes looks at the first item of a group only, and then
takes the whole group for items of the same kind.  A group is *led* by a kind if its first item is of it,
and *pure* if all its items are of it or none.

`sum_led_of_pure` says that the groups led by a kind contain exactly the items of this kind if all groups
are pure.  Without that, `sum_led_eq_countP_iff` says when at least the number is right: when the items of
other kinds in the groups that are led by it are as many as its items in the other groups.
-/

namespace NetCosm

namespace Groups

variable {A : Type*} {V : A → Bool}

/-- The first item of a group is of a kind. -/
def led (V : A → Bool) (g : List A) : Bool := g.head?.any V

/-- All items of a group are of a kind, or none. -/
def Pure (V : A → Bool) (g : List A) : Prop := (∀ a ∈ g, V a = true) ∨ ∀ a ∈ g, V a = false

instance (V : A → Bool) (g : List A) : Decidable (Pure V g) :=
  inferInstanceAs (Decidable ((∀ a ∈ g, V a = true) ∨ ∀ a ∈ g, V a = false))

@[simp] theorem led_nil (V : A → Bool) : led V [] = false := rfl

@[simp] theorem led_cons (V : A → Bool) (a : A) (g : List A) : led V (a :: g) = V a := rfl

/-- In a pure group that is led by a kind all items are of it. -/
theorem Pure.of_led {g : List A} (h : Pure V g) (hled : led V g = true) : ∀ a ∈ g, V a = true := by
  rcases h with h | h
  · exact h
  · cases g with
    | nil => exact fun a ha => absurd ha List.not_mem_nil
    | cons b g =>
      rw [led_cons, h b (List.mem_cons_self ..)] at hled
      exact absurd hled Bool.false_ne_true

/-- And in one that is not, none. -/
theorem Pure.of_not_led {g : List A} (h : Pure V g) (hled : led V g = false) :
    ∀ a ∈ g, V a = false := by
  rcases h with h | h
  · cases g with
    | nil => exact fun a ha => absurd ha List.not_mem_nil
    | cons b g =>
      rw [led_cons, h b (List.mem_cons_self ..)] at hled
      exact absurd hled.symm Bool.false_ne_true
  · exact h

/-- **Pure groups.**  Items counted in the groups led by a kind are the items of this kind. -/
theorem sum_led_of_pure {groups : List (List A)} (h : ∀ g ∈ groups, Pure V g) (q : A → Bool) :
    ((groups.filter (led V)).map (List.countP q)).sum = groups.flatten.countP fun a => q a && V a := by
  induction groups with
  | nil => rfl
  | cons g groups ih =>
    have hg := h g (List.mem_cons_self ..)
    have hrest := ih fun g' hg' => h g' (List.mem_cons_of_mem g hg')
    rw [List.flatten_cons, List.countP_append, ← hrest]
    cases hled : led V g with
    | true =>
      rw [List.filter_cons_of_pos hled, List.map_cons, List.sum_cons]
      refine congrArg (· + _) (List.countP_congr fun a ha => ?_)
      rw [hg.of_led hled a ha, Bool.and_true]
    | false =>
      rw [List.filter_cons_of_neg (by rw [hled]; exact Bool.false_ne_true)]
      refine (Nat.zero_add _).symm.trans (congrArg (· + _) (List.countP_eq_zero.mpr fun a ha => ?_).symm)
      rw [hg.of_not_led hled a ha, Bool.and_false]
      exact Bool.false_ne_true

/-- Items of two sorts of groups. -/
theorem sum_filter_add_sum_filter (p : List A → Bool) (f : List A → ℕ) (groups : List (List A)) :
    ((groups.filter p).map f).sum + ((groups.filter fun g => !p g).map f).sum = (groups.map f).sum := by
  induction groups with
  | nil => rfl
  | cons g groups ih =>
    rw [List.map_cons, List.sum_cons, ← ih]
    cases hp : p g with
    | true => simp [hp, Nat.add_assoc]
    | false => simp [hp, Nat.add_left_comm]

/-- **Any groups.**  The groups led by a kind have as many items as there are of this kind exactly when
the items of other kinds in them are as many as those of this kind in the other groups. -/
theorem sum_led_eq_countP_iff (V : A → Bool) (groups : List (List A)) :
    ((groups.filter (led V)).map List.length).sum = groups.flatten.countP V ↔
      ((groups.filter (led V)).map (List.countP fun a => !V a)).sum =
        ((groups.filter fun g => !led V g).map (List.countP V)).sum := by
  have hlen : ∀ l : List (List A), (l.map List.length).sum =
      (l.map (List.countP V)).sum + (l.map (List.countP fun a => !V a)).sum := by
    intro l
    induction l with
    | nil => rfl
    | cons g l ih =>
      simp only [List.map_cons, List.sum_cons, ih, List.length_eq_countP_add_countP V (l := g)]
      simp only [Bool.not_eq_true, Bool.decide_eq_false]
      omega
  have hall := sum_filter_add_sum_filter (led V) (List.countP V) groups
  rw [hlen, List.countP_flatten, ← hall]
  omega

end Groups

end NetCosm
