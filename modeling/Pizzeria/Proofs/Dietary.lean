import Mathlib.Data.List.Basic
import Pizzeria.Report

/-!
# What the dietary lines can be trusted with

A report says of a pizza whether it is free of dairy and whether it is vegan.  The first line
goes by the cheese of the base, the second one by that cheese and by meat among the toppings.
Neither of them looks for cheese among the toppings.  So both are right about every pizza but
one kind, on which both are wrong where they say yes: a base free of dairy, and on it a topping
that is listed under cheese.

## Main Definitions

* `Pizza.Declares` — a line is among those about a pizza.
* `Pizza.Truthful` — what the two lines affirm of a pizza is so.

## Main Results

* `Pizza.declares_dairyFree_iff`, `Pizza.declares_vegan_iff` — when the lines affirm.
* `Pizza.truthful_iff` — the pizzas about which they are right.
-/

namespace Pizzeria

/-- Mozzarella, in any amount. -/
inductive Cheese.IsMozzarella : Cheese → Prop where
  | single : IsMozzarella mozzarella
  | double : IsMozzarella doubleMozzarella
  | triple : IsMozzarella tripleMozzarella

theorem Cheese.not_isMozzarella_dairyFree : ¬ dairyFree.IsMozzarella := by
  intro mozzarella
  cases mozzarella

/-- A topping that is neither meat nor cheese is a vegetable, so saying what is not there says
what is. -/
theorem Topping.Group.eq_veggie_iff {g : Topping.Group} :
    g = veggie ↔ g ≠ meat ∧ g ≠ cheese := by
  cases g <;> decide

namespace Pizza

/-! ### When the lines affirm -/

/-- The line is among the dietary lines of the pizza. -/
def Declares (p : Pizza) (line : Text) : Prop := line ∈ p.dietaryLines

/-- The four lines are told apart by their labels, and a yes from a no.  What a pizza declares can
therefore be read off its lines. -/
theorem mem_facts (glutenFree dairyFree vegetarian vegan : Bool) :
    let lines := [fact "Gluten-Free" glutenFree, fact "Dairy-Free" dairyFree,
      fact "Vegetarian" vegetarian, fact "Vegan" vegan]
    (fact "Dairy-Free" true ∈ lines ↔ dairyFree = true) ∧
      (fact "Vegan" true ∈ lines ↔ vegan = true) := by
  revert glutenFree dairyFree vegetarian vegan
  decide

/-- Only the cheese of the base counts for the line about dairy.  Cheese among the toppings is not
looked at. -/
theorem declares_dairyFree_iff {p : Pizza} :
    p.Declares "Dairy-Free: Yes" ↔ p.cheese = .dairyFree :=
  (mem_facts p.isGlutenFree p.isDairyFree p.isVegetarian p.isVegan).1.trans beq_iff_eq

/-- The line about vegetarian food is about the toppings alone, as no base has meat. -/
theorem isVegetarian_iff {p : Pizza} :
    p.isVegetarian = true ↔ ∀ a ∈ p.toppings, a.topping.group ≠ .meat := by
  simp [isVegetarian]

/-- The line about vegan food adds to the line about dairy that there is no meat.  So it inherits
what that line leaves out. -/
theorem declares_vegan_iff {p : Pizza} :
    p.Declares "Vegan: Yes" ↔
      p.cheese = .dairyFree ∧ ∀ a ∈ p.toppings, a.topping.group ≠ .meat := by
  refine (mem_facts p.isGlutenFree p.isDairyFree p.isVegetarian p.isVegan).2.trans ?_
  rw [isVegan, Bool.and_eq_true, isVegetarian_iff, isDairyFree, beq_iff_eq]

/-! ### When they are right -/

/-- What the two lines affirm is so.  A pizza that they call free of dairy has no cheese among
its toppings, and one that they call vegan has vegetables only, and no mozzarella below them. -/
structure Truthful (p : Pizza) : Prop where
  dairyFree : p.Declares "Dairy-Free: Yes" → ∀ a ∈ p.toppings, a.topping.group ≠ .cheese
  vegan : p.Declares "Vegan: Yes" →
    (∀ a ∈ p.toppings, a.topping.group = .veggie) ∧ ¬ p.cheese.IsMozzarella

/-- The lines are right unless there is cheese on a base that is free of dairy.  This is the only
way in which they can be wrong. -/
theorem truthful_iff {p : Pizza} :
    p.Truthful ↔ (p.cheese = .dairyFree → ∀ a ∈ p.toppings, a.topping.group ≠ .cheese) := by
  constructor
  · intro truthful base
    exact truthful.dairyFree (declares_dairyFree_iff.mpr base)
  · intro cheeseless
    refine ⟨?_, ?_⟩
    · intro affirmed
      exact cheeseless (declares_dairyFree_iff.mp affirmed)
    · intro affirmed
      obtain ⟨base, meatless⟩ := declares_vegan_iff.mp affirmed
      refine ⟨?_, ?_⟩
      · intro a mem
        exact Topping.Group.eq_veggie_iff.mpr ⟨meatless a mem, cheeseless base a mem⟩
      · rw [base]
        exact Cheese.not_isMozzarella_dairyFree

/-- **Where the dietary lines can be trusted.**  The line about dairy affirms exactly if the base
is free of it, the line about vegan food exactly if moreover no topping is meat.  What the two
affirm is so of every pizza, but for those that have cheese among the toppings of a base that is
free of dairy. -/
theorem truthful_exact (p : Pizza) :
    (p.Declares "Dairy-Free: Yes" ↔ p.cheese = .dairyFree) ∧
      (p.Declares "Vegan: Yes" ↔
        p.cheese = .dairyFree ∧ ∀ a ∈ p.toppings, a.topping.group ≠ .meat) ∧
      (p.Truthful ↔ ¬ (p.cheese = .dairyFree ∧ ∃ a ∈ p.toppings, a.topping.group = .cheese)) := by
  refine ⟨declares_dairyFree_iff, declares_vegan_iff, ?_⟩
  rw [truthful_iff]
  simp

/-- Feta on a base that is free of dairy is called free of dairy and vegan. -/
theorem mislabelled_feta :
    ∃ p : Pizza, p = ⟨.standard, .tomato, .dairyFree, [⟨.right, .feta⟩]⟩ ∧
      p.dietaryLines =
        ["Gluten-Free: No", "Dairy-Free: Yes", "Vegetarian: Yes", "Vegan: Yes"] ∧
      Topping.feta.group = .cheese ∧ ¬ p.Truthful := by
  refine ⟨_, rfl, by decide, rfl, ?_⟩
  intro truthful
  exact truthful_iff.mp truthful rfl ⟨.right, .feta⟩ List.mem_cons_self rfl

end Pizza

end Pizzeria
