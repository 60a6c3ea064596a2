import Mathlib.Data.List.Perm.Subperm
import Pizzeria.Session

/-!
# When two pizzas are the same

`Pizza.same` looks at the toppings from one side only: each topping of the first pizza has to
be as frequent on the second.  Because both have equally many toppings the second has no room
for anything else, so what is compared are the toppings up to their order, repetitions
included.  The relation is an equivalence for that reason, and an order is found under any
pizza that is the same as another one it is found under.

## Main Results

* `List.perm_of_count_eq` — counts from one side are enough for lists of equal length.
* `Pizza.same_iff` — pizzas are the same if their bases are and their toppings are up to order.
* `Pizza.equivalence_same` — sameness is an equivalence.
* `Session.position?_replica_congr` — the same pizzas refer to the same order.
-/

/-- Lists of equal length are equal up to order if each member of the first is as frequent in
the second. -/
theorem List.perm_of_count_eq {α : Type*} [DecidableEq α] {l m : List α}
    (length : l.length = m.length) (counts : ∀ a ∈ l, l.count a = m.count a) : l.Perm m := by
  have among : l.Subperm m := by
    rw [List.subperm_ext_iff]
    intro a mem
    exact Nat.le_of_eq (counts a mem)
  -- All of the second list is used up by the first, which is no shorter.
  exact among.perm_of_length_le (Nat.le_of_eq length.symm)

namespace Pizzeria

namespace Pizza

/-- The bases are equal, and the toppings are up to their order.  The test counts each topping, so
repeated ones have to be repeated equally often. -/
theorem same_iff {p q : Pizza} :
    p.same q = true ↔
      p.crust = q.crust ∧ p.sauce = q.sauce ∧ p.cheese = q.cheese ∧
        p.toppings.Perm q.toppings := by
  constructor
  · intro same
    simp only [Pizza.same, Bool.and_eq_true, beq_iff_eq, List.all_eq_true] at same
    obtain ⟨⟨⟨⟨crust, sauce⟩, cheese⟩, length⟩, counts⟩ := same
    exact ⟨crust, sauce, cheese, List.perm_of_count_eq length counts⟩
  · rintro ⟨crust, sauce, cheese, perm⟩
    simp [Pizza.same, crust, sauce, cheese, perm.length_eq, perm.count_eq]

theorem equivalence_same : Equivalence fun p q : Pizza => p.same q = true where
  refl p := same_iff.mpr ⟨rfl, rfl, rfl, .refl _⟩
  symm := by
    intro p q same
    obtain ⟨crust, sauce, cheese, perm⟩ := same_iff.mp same
    exact same_iff.mpr ⟨crust.symm, sauce.symm, cheese.symm, perm.symm⟩
  trans := by
    intro p q r first second
    obtain ⟨crust, sauce, cheese, perm⟩ := same_iff.mp first
    obtain ⟨crust', sauce', cheese', perm'⟩ := same_iff.mp second
    exact same_iff.mpr
      ⟨crust.trans crust', sauce.trans sauce', cheese.trans cheese', perm.trans perm'⟩

/-- A pizza cannot tell apart two pizzas that are the same.  So which of them is asked for, or
compared with, is of no importance. -/
theorem same_congr {p q : Pizza} (same : p.same q = true) (o : Pizza) : o.same p = o.same q := by
  rw [Bool.eq_iff_iff]
  constructor
  · intro found
    exact equivalence_same.trans found same
  · intro found
    exact equivalence_same.trans found (equivalence_same.symm same)

end Pizza

/-- Pizzas that are the same refer to the same order of a session, the first one with such a
pizza. -/
theorem Session.position?_replica_congr (s : Session) {p q : Pizza} (same : p.same q = true) :
    s.position? (.replica p) = s.position? (.replica q) := by
  have alike : (fun o : Order => o.pizza.same p) = fun o => o.pizza.same q := by
    funext o
    exact Pizza.same_congr same o.pizza
  rw [position?, position?, alike]

/-- **Sameness of pizzas is equality up to the order of the toppings.**  Two pizzas are the same
exactly if they have the same crust, sauce and cheese, and the toppings of one are those of the
other in some order, each as often.  So sameness is an equivalence, and in every session two
pizzas that are the same refer to the same order, or both to none. -/
theorem Pizza.same_exact :
    (∀ p q : Pizza, p.same q = true ↔
      p.crust = q.crust ∧ p.sauce = q.sauce ∧ p.cheese = q.cheese ∧
        p.toppings.Perm q.toppings) ∧
      Equivalence (fun p q : Pizza => p.same q = true) ∧
      ∀ (s : Session) (p q : Pizza), p.same q = true →
        s.position? (.replica p) = s.position? (.replica q) :=
  ⟨fun _ _ => same_iff, equivalence_same, fun s _ _ => s.position?_replica_congr⟩

-- Equally many toppings of the same kinds are not enough.
example (ham pineapple : Arrangement) (other : ham ≠ pineapple) :
    Pizza.same { Pizza.standard with toppings := [ham, ham, pineapple] }
      { Pizza.standard with toppings := [ham, pineapple, pineapple] } = false := by
  simp [Pizza.same, other]

end Pizzeria
