import Pizzeria.Text

/-!
# The menu

What a pizza can be made of.  Each kind of component is a finite type with a
canonical word (its spelling in a program) and a title (its spelling in a
report).  Words are looked up without regard to the case of ASCII letters;
a few components have a second spelling.

## Main Definitions

* `Crust`, `Sauce`, `Cheese`, `Topping`, `Position` — the five kinds of
  component, each with `all`, `word` and `ofWord?`.
* `Topping.Group` — the section of the menu a topping belongs to.
-/

namespace Pizzeria

/-- The entry of a word table under a word, in any case. -/
def findWord {α : Type} (table : List (Text × α)) (word : Text) : Option α :=
  table.lookup word.upper

/-! ### Crusts -/

/-- What the pizza rests on. -/
inductive Crust where
  | standard | thin | thick | glutenFree
  deriving DecidableEq, Repr, Inhabited

namespace Crust

/-- Every crust, in the order of the menu. -/
def all : List Crust := [standard, thin, thick, glutenFree]

/-- The canonical spelling in a program. -/
def word : Crust → Text
  | standard => "STANDARD"
  | thin => "THINCRUST"
  | thick => "THICKCRUST"
  | glutenFree => "GLUTENFREE"

/-- The name used in reports. -/
def title : Crust → Text
  | standard => "Standard Crust"
  | thin => "Thin Crust"
  | thick => "Thick Crust"
  | glutenFree => "Gluten-Free Crust"

/-- The crust that a word names. -/
def ofWord? (word : Text) : Option Crust :=
  findWord (all.map fun c => (c.word, c)) word

end Crust

/-! ### Sauces -/

/-- What is spread on the crust. -/
inductive Sauce where
  | none | tomato | pesto | oliveOil | bbq
  deriving DecidableEq, Repr, Inhabited

namespace Sauce

/-- Every sauce, in the order of the menu. -/
def all : List Sauce := [none, tomato, pesto, oliveOil, bbq]

/-- The canonical spelling in a program. -/
def word : Sauce → Text
  | none => "NONE"
  | tomato => "TOMATO"
  | pesto => "PESTO"
  | oliveOil => "OLIVEOIL"
  | bbq => "BBQ"

/-- The name used in reports. -/
def title : Sauce → Text
  | none => "No Sauce"
  | tomato => "Tomato Sauce"
  | pesto => "Pesto Base"
  | oliveOil => "Olive Oil Base"
  | bbq => "BBQ Base"

/-- Second spellings. -/
def aliases : List (Text × Sauce) := [("BARBECUE", bbq)]

/-- The sauce that a word names. -/
def ofWord? (word : Text) : Option Sauce :=
  findWord ((all.map fun s => (s.word, s)) ++ aliases) word

end Sauce

/-! ### Cheeses -/

/-- The cheese of the base, under the toppings. -/
inductive Cheese where
  | none | mozzarella | doubleMozzarella | tripleMozzarella | dairyFree
  deriving DecidableEq, Repr, Inhabited

namespace Cheese

/-- Every cheese, in the order of the menu. -/
def all : List Cheese :=
  [none, mozzarella, doubleMozzarella, tripleMozzarella, dairyFree]

/-- The canonical spelling in a program. -/
def word : Cheese → Text
  | none => "NONE"
  | mozzarella => "MOZZARELLA"
  | doubleMozzarella => "DOUBLEMOZZARELLA"
  | tripleMozzarella => "TRIPLEMOZZARELLA"
  | dairyFree => "DAIRYFREE"

/-- The name used in reports. -/
def title : Cheese → Text
  | none => "No Cheese"
  | mozzarella => "Mozzarella Cheese"
  | doubleMozzarella => "Double Mozzarella Cheese"
  | tripleMozzarella => "Triple Mozzarella Cheese"
  | dairyFree => "Dairy-Free Cheese"

/-- The cheese that a word names. -/
def ofWord? (word : Text) : Option Cheese :=
  findWord (all.map fun c => (c.word, c)) word

end Cheese

/-! ### Toppings -/

/-- What is laid on the base. -/
inductive Topping where
  | pepperoni | bacon | soppressata | sausage | anchovies | chicken | ham | beef
  | chorizo
  | artichoke | blackOlives | greenOlives | broccoli | bruschetta | garlic
  | greenPeppers | roastedRedPeppers | hotPeppers | hotHoney | mushrooms
  | portobelloMushrooms | spanishOnion | redOnion | pineapple
  | plantBasedPepperoni | spinach | tomato | zucchini
  | asiago | cheddar | feta | goatCheese | parmesan
  deriving DecidableEq, Repr, Inhabited

namespace Topping

/-- The sections of the menu that toppings are listed under. -/
inductive Group where
  | meat | veggie | cheese
  deriving DecidableEq, Repr, Inhabited

/-- Every topping, in the order of the menu. -/
def all : List Topping :=
  [pepperoni, bacon, soppressata, sausage, anchovies, chicken, ham, beef, chorizo,
    artichoke, blackOlives, greenOlives, broccoli, bruschetta, garlic, greenPeppers,
    roastedRedPeppers, hotPeppers, hotHoney, mushrooms, portobelloMushrooms,
    spanishOnion, redOnion, pineapple, plantBasedPepperoni, spinach, tomato, zucchini,
    asiago, cheddar, feta, goatCheese, parmesan]

/-- The section a topping is listed under. -/
def group : Topping → Group
  | pepperoni | bacon | soppressata | sausage | anchovies | chicken | ham | beef
  | chorizo => .meat
  | asiago | cheddar | feta | goatCheese | parmesan => .cheese
  | _ => .veggie

/-- The canonical spelling in a program. -/
def word : Topping → Text
  | pepperoni => "PEPPERONI"
  | bacon => "BACON"
  | soppressata => "SOPPRESSATA"
  | sausage => "SAUSAGE"
  | anchovies => "ANCHOVIES"
  | chicken => "CHICKEN"
  | ham => "HAM"
  | beef => "BEEF"
  | chorizo => "CHORIZO"
  | artichoke => "ARTICHOKE"
  | blackOlives => "BLACKOLIVES"
  | greenOlives => "GREENOLIVES"
  | broccoli => "BROCCOLI"
  | bruschetta => "BRUSCHETTA"
  | garlic => "GARLIC"
  | greenPeppers => "GREENPEPPERS"
  | roastedRedPeppers => "ROASTEDREDPEPPERS"
  | hotPeppers => "HOTPEPPERS"
  | hotHoney => "HOTHONEY"
  | mushrooms => "MUSHROOMS"
  | portobelloMushrooms => "PORTOBELLOMUSHROOMS"
  | spanishOnion => "SPANISHONION"
  | redOnion => "REDONION"
  | pineapple => "PINEAPPLE"
  | plantBasedPepperoni => "PLANTBASEDPEPPERONI"
  | spinach => "SPINACH"
  | tomato => "TOMATO"
  | zucchini => "ZUCCHINI"
  | asiago => "ASIAGO"
  | cheddar => "CHEDDAR"
  | feta => "FETA"
  | goatCheese => "GOATCHEESE"
  | parmesan => "PARMESAN"

/-- The name used in reports. -/
def title : Topping → Text
  | pepperoni => "Pepperoni"
  | bacon => "Bacon"
  | soppressata => "Soppressata"
  | sausage => "Sausage"
  | anchovies => "Anchovies"
  | chicken => "Chicken"
  | ham => "Ham"
  | beef => "Beef"
  | chorizo => "Chorizo"
  | artichoke => "Artichoke"
  | blackOlives => "Black Olives"
  | greenOlives => "Green Olives"
  | broccoli => "Broccoli"
  | bruschetta => "Bruschetta"
  | garlic => "Garlic"
  | greenPeppers => "Green Peppers"
  | roastedRedPeppers => "Roasted Red Peppers"
  | hotPeppers => "Hot Peppers"
  | hotHoney => "Hot Honey"
  | mushrooms => "Mushrooms"
  | portobelloMushrooms => "Portobello Mushrooms"
  | spanishOnion => "Onion"
  | redOnion => "Red Onion"
  | pineapple => "Pineapple"
  | plantBasedPepperoni => "Plant-Based Pepperoni"
  | spinach => "Spinach"
  | tomato => "Tomato"
  | zucchini => "Zucchini"
  | asiago => "Asiago Cheese"
  | cheddar => "Cheddar Cheese"
  | feta => "Feta Cheese"
  | goatCheese => "Goat Cheese"
  | parmesan => "Parmesan Cheese"

/-- Second spellings. -/
def aliases : List (Text × Topping) := [("OLIVES", blackOlives), ("ONION", redOnion)]

/-- The topping that a word names. -/
def ofWord? (word : Text) : Option Topping :=
  findWord ((all.map fun t => (t.word, t)) ++ aliases) word

end Topping

/-! ### Positions -/

/-- The part of the pizza that a topping covers. -/
inductive Position where
  | left | right | whole
  deriving DecidableEq, Repr, Inhabited

namespace Position

/-- Every position, in the order of the menu. -/
def all : List Position := [left, right, whole]

/-- The canonical spelling in a program. -/
def word : Position → Text
  | left => "LEFT"
  | right => "RIGHT"
  | whole => "ALL"

/-- What a report adds to the name of a topping in this position. -/
def suffix : Position → Text
  | left => " (Left)"
  | right => " (Right)"
  | whole => ""

/-- The position that a word names. -/
def ofWord? (word : Text) : Option Position :=
  findWord (all.map fun p => (p.word, p)) word

end Position

end Pizzeria
