import Pizzeria.Menu

/-!
# Pizzas

A pizza has a crust, a sauce, a cheese and a list of arrangements.  The order of
the arrangements is kept, because reports show it, but `Pizza.same` does not look
at it.

## Main Definitions

* `Arrangement` — a topping in a position.
* `Element`, `Element.Category` — one component of a pizza, as one clause of a
  literal gives it.
* `Pizza`, `Pizza.standard` — a pizza, and the one that an empty literal means.
* `Pizza.same` — equality up to the order of the toppings.
* `Pizza.components`, `Pizza.literal` — the components, and the written form.
* `Pizza.isGlutenFree`, `Pizza.isDairyFree`, `Pizza.isVegetarian`,
  `Pizza.isVegan` — the dietary facts that reports state.
-/

namespace Pizzeria

/-- A topping on part or all of a pizza. -/
structure Arrangement where
  position : Position
  topping : Topping
  deriving DecidableEq, Repr, Inhabited

/-- The name used in reports: the topping, then the position if it is a half. -/
def Arrangement.title (a : Arrangement) : Text :=
  a.topping.title ++ a.position.suffix

/-- One component of a pizza. -/
inductive Element where
  | crust (value : Crust)
  | sauce (value : Sauce)
  | cheese (value : Cheese)
  | topping (value : Arrangement)
  deriving DecidableEq, Repr, Inhabited

/-- The kinds of component. -/
inductive Element.Category where
  | crust | sauce | cheese | topping
  deriving DecidableEq, Repr, Inhabited

/-- The name used in messages. -/
def Element.Category.name : Element.Category → Text
  | crust => "crust"
  | sauce => "sauce"
  | cheese => "cheese"
  | topping => "topping arrangement"

namespace Element

/-- The kind of component that an element is. -/
def category : Element → Category
  | crust _ => .crust
  | sauce _ => .sauce
  | cheese _ => .cheese
  | topping _ => .topping

/-- The clause body `KIND:VALUE` that means the element. -/
def body : Element → Text
  | crust c => "CRUST:" ++ c.word
  | sauce s => "SAUCE:" ++ s.word
  | cheese c => "CHEESE:" ++ c.word
  | topping a => a.position.word ++ ':' :: a.topping.word

/-- The explicit clause that means the element, braces included. -/
def literal (e : Element) : Text := '{' :: e.body ++ ['}']

end Element

/-- A pizza as ordered. -/
structure Pizza where
  crust : Crust
  sauce : Sauce
  cheese : Cheese
  toppings : List Arrangement
  deriving DecidableEq, Repr

namespace Pizza

/-- The crust of a pizza that names none. -/
def defaultCrust : Crust := .standard

/-- The sauce of a pizza that names none. -/
def defaultSauce : Sauce := .tomato

/-- The cheese of a pizza that names none. -/
def defaultCheese : Cheese := .mozzarella

/-- The pizza that names no component. -/
def standard : Pizza := ⟨defaultCrust, defaultSauce, defaultCheese, []⟩

instance : Inhabited Pizza := ⟨standard⟩

/-- The same pizza up to the order of its toppings: equal bases, equally many
toppings, and each topping of the first as often on the second as on the first. -/
def same (p q : Pizza) : Bool :=
  p.crust == q.crust && p.sauce == q.sauce && p.cheese == q.cheese &&
    p.toppings.length == q.toppings.length &&
    p.toppings.all fun a => p.toppings.count a == q.toppings.count a

/-- The arrangement is on the pizza. -/
def has (p : Pizza) (a : Arrangement) : Bool := p.toppings.contains a

/-! ### Written form -/

/-- The components, base first and toppings in their order. -/
def components (p : Pizza) : List Element :=
  .crust p.crust :: .sauce p.sauce :: .cheese p.cheese :: p.toppings.map .topping

/-- The literal without its outer brackets. -/
def literalBody (p : Pizza) : Text := Text.join "," (p.components.map Element.literal)

/-- The literal that means the pizza. -/
def literal (p : Pizza) : Text := '[' :: p.literalBody ++ [']']

/-! ### Dietary facts -/

/-- The crust is free of gluten. -/
def isGlutenFree (p : Pizza) : Bool := p.crust == .glutenFree

/-- The cheese of the base is free of dairy. -/
def isDairyFree (p : Pizza) : Bool := p.cheese == .dairyFree

/-- No topping is listed under meat. -/
def isVegetarian (p : Pizza) : Bool := p.toppings.all fun a => a.topping.group != .meat

/-- Both free of dairy and vegetarian. -/
def isVegan (p : Pizza) : Bool := p.isDairyFree && p.isVegetarian

end Pizza

end Pizzeria
