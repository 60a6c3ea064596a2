import Pizzeria.Statement

/-!
# Sessions

A session collects the orders of one round of voting, in the order in which they
came in.

## Main Definitions

* `Order`, `Session` — an order with its votes, and a session of them.
* `Session.position?` — the order that a specifier refers to.
* `Session.add`, `Session.remove?`, `Session.vote?`, `Session.resetVotes`,
  `Session.reset`, `Session.rename` — the changes.
* `Session.ranking` — the orders by their votes.

## Design Notes

Votes have 32 bits and a sign, and counting stops at the bounds instead of going
past them.
-/

namespace Pizzeria

/-- A pizza that someone asked for. -/
structure Order where
  pizza : Pizza
  votes : Int32
  /-- Empty for an order without a name. -/
  name : Text
  deriving DecidableEq

namespace Order

/-- A new order. -/
def place (pizza : Pizza) (name : Text) : Order := ⟨pizza, 0, name⟩

/-- The order with more votes, or fewer for a negative amount, up to the bounds. -/
def addVotes (amount : Int32) (o : Order) : Order :=
  { o with votes := Int32.ofIntClamp (o.votes.toInt + amount.toInt) }

end Order

/-- A round of orders and votes. -/
structure Session where
  name : Text
  orders : List Order
  /-- The number of orders that room was set aside for. -/
  reserved : Nat
  deriving DecidableEq

namespace Session

/-- A session without orders. -/
def start (name : Text) (reserved : Nat) : Session := ⟨name, [], reserved⟩

/-- The session with one more order, behind the others. -/
def add (s : Session) (order : Order) : Session := { s with orders := s.orders ++ [order] }

/-- The session under another name. -/
def rename (s : Session) (name : Text) : Session := { s with name := name }

/-- The position, counted from zero, of the order that a specifier refers to. -/
def position? (s : Session) : Specifier → Option Nat
  | .index n =>
      if 1 ≤ n.toInt ∧ n.toInt ≤ s.orders.length then some (n.toInt.toNat - 1) else none
  | .name name => s.orders.findIdx? fun o => o.name == name
  | .replica pizza => s.orders.findIdx? fun o => o.pizza.same pizza

/-- The order that a specifier refers to. -/
def get? (s : Session) (spec : Specifier) : Option Order :=
  (s.position? spec).bind fun i => s.orders[i]?

/-- The session with a change made to the order at a position. -/
def modify (s : Session) (i : Nat) (change : Order → Order) : Session :=
  { s with orders := s.orders.modify i change }

/-- The order that a specifier refers to, and the session without it. -/
def remove? (s : Session) (spec : Specifier) : Option (Order × Session) := do
  let i ← s.position? spec
  let order ← s.orders[i]?
  return (order, { s with orders := s.orders.eraseIdx i })

/-- The session with votes added to the order that a specifier refers to. -/
def vote? (s : Session) (spec : Specifier) (amount : Int32) : Option Session :=
  (s.position? spec).map fun i => s.modify i (Order.addVotes amount)

/-- The session with no votes for any order. -/
def resetVotes (s : Session) : Session :=
  { s with orders := s.orders.map fun o => { o with votes := 0 } }

/-- The session without its orders. -/
def reset (s : Session) : Session := { s with orders := [] }

/-- The orders by votes, most first; equal votes keep the order of entry. -/
def ranking (s : Session) : List Order :=
  s.orders.mergeSort fun a b => b.votes.toInt ≤ a.votes.toInt

end Session

end Pizzeria
