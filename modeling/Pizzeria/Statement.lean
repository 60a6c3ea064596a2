import Pizzeria.Pizza.Basic

/-!
# Statements

What a program can ask for.  An empty name stands for no name.

## Main Definitions

* `Specifier` — a reference to an order: by its number, by its name, or by a pizza
  like it.
* `Alteration` — a change to the pizza of an order.
* `Statement`, `Statement.label`, `Statement.specifier?` — one step of a program.
-/

namespace Pizzeria

/-- A reference to an order of the session. -/
inductive Specifier where
  /-- The order with this number, counted from one. -/
  | index (number : Int32)
  /-- The first order with this name. -/
  | name (name : Text)
  /-- The first order for the same pizza. -/
  | replica (pizza : Pizza)
  deriving DecidableEq

/-- A change to the pizza of an order. -/
inductive Alteration where
  | addTopping (arrangement : Arrangement)
  | removeTopping (arrangement : Arrangement)
  | setCrust (crust : Crust)
  | setSauce (sauce : Sauce)
  | setCheese (cheese : Cheese)
  deriving DecidableEq

/-- One step of a program. -/
inductive Statement where
  /-- Open a session with room set aside for `reserved` orders. -/
  | startSession (name : Text) (reserved : Nat)
  | nameSession (name : Text)
  | endSession
  | saveSession (file : Text)
  | loadSession (file : Text)
  | addPizza (pizza : Pizza) (name : Text)
  | removePizza (order : Specifier)
  /-- Show one order, or all of them; with its dietary facts if `details`. -/
  | viewPizza (order : Option Specifier) (details : Bool)
  | alterPizza (order : Specifier) (alteration : Alteration)
  | votePizza (order : Specifier) (votes : Int32)
  /-- Show the orders with the most votes. -/
  | selectTop (count : Int32)
  | resetVotes
  | resetSession
  | quit
  deriving DecidableEq

/-- The statements of a program, in order. -/
abbrev Program := List Statement

namespace Statement

/-- The keywords that a statement is known by. -/
def label : Statement → Text
  | startSession _ _ => "START SESSION"
  | nameSession _ => "NAME SESSION"
  | endSession => "END SESSION"
  | saveSession _ => "SAVE SESSION"
  | loadSession _ => "LOAD SESSION"
  | addPizza _ _ => "ADD PIZZA"
  | removePizza _ => "REMOVE PIZZA"
  | viewPizza _ _ => "VIEW PIZZA"
  | alterPizza _ _ => "ALTER PIZZA"
  | votePizza _ _ => "VOTE FOR PIZZA"
  | selectTop _ => "SELECT TOP PIZZA"
  | resetVotes => "RESET SESSION VOTES"
  | resetSession => "RESET SESSION"
  | quit => "QUIT"

/-- The order that a statement refers to. -/
def specifier? : Statement → Option Specifier
  | removePizza order | alterPizza order _ | votePizza order _ => some order
  | viewPizza order _ => order
  | _ => none

end Statement

end Pizzeria
