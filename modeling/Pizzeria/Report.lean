import Pizzeria.Console
import Pizzeria.Session

/-!
# Reports

How pizzas, orders and sessions are shown to people.

## Main Definitions

* `Settings` — the choices that shape the output.
* `Pizza.describe`, `Order.describe` — one line about a pizza or an order.
* `Pizza.dietaryLines` — the dietary facts.
* `Order.report`, `Session.report`, `Session.topReport` — the texts that statements
  print.

## Design Notes

A description lists the toppings first, then cheese, sauce and crust.  Of the base, a
component at its default is left out, unless there are no toppings or every detail is
asked for; so no description is empty.
-/

namespace Pizzeria

/-- The choices that shape the output. -/
structure Settings where
  /-- List the whole base in every description. -/
  detail : Bool := false
  /-- The character of the rules between outputs. -/
  ruleChar : Char := '-'
  /-- The character of the rule above the prompt. -/
  promptRuleChar : Char := '*'
  prompt : Text := "> "
  deriving DecidableEq, Repr

namespace Pizza

/-- A base component that is shown: always if `always`, else when it is not the
default. -/
def shown {α : Type} [DecidableEq α] (always : Bool) (value default : α)
    (name : α → Text) : List Text :=
  if always || value != default then [name value] else []

/-- The words of a description. -/
def words (p : Pizza) (detail : Bool) : List Text :=
  let always := detail || p.toppings.isEmpty
  p.toppings.map Arrangement.title ++
    shown always p.cheese defaultCheese Cheese.title ++
    shown always p.sauce defaultSauce Sauce.title ++
    shown always p.crust defaultCrust Crust.title

/-- One line about a pizza, such as `Ham (Right), Pesto Base, Thin Crust.` -/
def describe (p : Pizza) (detail : Bool) : Text :=
  Text.join ", " (p.words detail) ++ "."

/-- A fact, affirmed or denied. -/
def fact (label : Text) (holds : Bool) : Text :=
  label ++ if holds then ": Yes" else ": No"

/-- The dietary facts, one on each line. -/
def dietaryLines (p : Pizza) : List Text :=
  [ fact "Gluten-Free" p.isGlutenFree,
    fact "Dairy-Free" p.isDairyFree,
    fact "Vegetarian" p.isVegetarian,
    fact "Vegan" p.isVegan ]

end Pizza

namespace Order

/-- What comes before the pizza in the line about an order: its number if one is
given, and its name if it has one. -/
def heading (number : Option Nat) (name : Text) : Text :=
  match number, name with
  | some n, [] => '#' :: Text.ofNat n ++ ": "
  | some n, c :: cs => '#' :: Text.ofNat n ++ " " ++ Text.quoted (c :: cs) ++ ": "
  | none, [] => ""
  | none, c :: cs => Text.quoted (c :: cs) ++ ": "

/-- One line about an order, such as `#2 "Test": Ham (Right). [3 votes]` -/
def describe (o : Order) (number : Option Nat) (detail : Bool) : Text :=
  heading number o.name ++ o.pizza.describe detail ++
    " [" ++ Text.ofInt o.votes.toInt ++ " votes]"

/-- The line about an order, with its dietary facts if `details`. -/
def report (o : Order) (number : Option Nat) (details : Bool) (settings : Settings) :
    List Text :=
  o.describe number settings.detail :: if details then o.pizza.dietaryLines else []

end Order

namespace Session

/-- The line above the list of orders. -/
def heading (s : Session) : Text :=
  let count := Text.ofNat s.orders.length ++ " pizzas ordered."
  if s.name.isEmpty then count else s.name ++ ": " ++ count

/-- The session with all its orders, numbered, a blank line behind each part. -/
def report (s : Session) (details : Bool) (settings : Settings) : List Text :=
  s.heading :: [] ::
    s.orders.zipIdx.flatMap fun (o, i) => o.report (some (i + 1)) details settings ++ [[]]

/-- The `n` orders with the most votes. -/
def topReport (s : Session) (n : Nat) (settings : Settings) : List Text :=
  ("Top " ++ Text.ofNat n ++ " orders:") ::
    (s.ranking.take n).map fun o => o.describe none settings.detail

end Session

end Pizzeria
