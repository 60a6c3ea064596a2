import Pizzeria.Session

/-!
# Scripts

Programs and sessions written out as source text.  A statement is written on a line
of its own, its parts parted by single blanks: strings in quotes, integers in decimal
in parentheses, pizzas and elements as their literals.

## Main Definitions

* `Specifier.render`, `Statement.render`, `Program.render` — the source text of a
  reference, of a statement and of a program.
* `Session.script` — a program that builds the session up from nothing.

## Design Notes

Names and numbers of votes are written out also where a statement could go without
them, so that each statement has one written form.
-/

namespace Pizzeria

/-- An integer literal. -/
def Text.integerLiteral (n : Int32) : Text := '(' :: Text.ofInt n.toInt ++ [')']

/-- The literal that refers to an order. -/
def Specifier.render : Specifier → Text
  | .index number => Text.integerLiteral number
  | .name text => text.quoted
  | .replica pizza => pizza.literal

/-- The parts of an alteration: verb, noun and element. -/
def Alteration.parts : Alteration → List Text
  | addTopping a => ["ADD", "TOPPING", (Element.topping a).literal]
  | removeTopping a => ["REMOVE", "TOPPING", (Element.topping a).literal]
  | setCrust c => ["SET", "CRUST", (Element.crust c).literal]
  | setSauce s => ["SET", "SAUCE", (Element.sauce s).literal]
  | setCheese c => ["SET", "CHEESE", (Element.cheese c).literal]

namespace Statement

/-- The keywords and literals of a statement, without the delimiter. -/
def parts : Statement → List Text
  | startSession name _ => ["START", "SESSION", "AS", name.quoted]
  | nameSession name => ["NAME", "SESSION", name.quoted]
  | endSession => ["END", "SESSION"]
  | saveSession file => ["SAVE", "SESSION", "TO", file.quoted]
  | loadSession file => ["LOAD", "SESSION", "FROM", file.quoted]
  | addPizza pizza name => ["ADD", "PIZZA", pizza.literal, "AS", name.quoted]
  | removePizza order => ["REMOVE", "PIZZA", order.render]
  | viewPizza none false => ["VIEW", "PIZZA"]
  | viewPizza none true => ["VIEW", "PIZZA", "DETAILS"]
  | viewPizza (some order) false => ["VIEW", "PIZZA", order.render]
  | viewPizza (some order) true => ["VIEW", "PIZZA", order.render, "DETAILS"]
  | alterPizza order alteration => "ALTER" :: "PIZZA" :: order.render :: alteration.parts
  | votePizza order votes =>
      ["VOTE", "FOR", "PIZZA", order.render, Text.integerLiteral votes]
  | selectTop count => ["SELECT", "TOP", Text.integerLiteral count, "PIZZA"]
  | resetVotes => ["RESET", "SESSION", "VOTES"]
  | resetSession => ["RESET", "SESSION"]
  | quit => ["QUIT"]

/-- The line of source text that means a statement. -/
def render (s : Statement) : Text := Text.join " " s.parts ++ [';', '\n']

end Statement

/-- The source text that means a program. -/
def Program.render (program : Program) : Text := program.flatMap Statement.render

namespace Session

/-- The statements that place an order, the one with this number, and give it its
votes. -/
def orderStatements (number : Nat) (o : Order) : Program :=
  [.addPizza o.pizza o.name, .votePizza (.index (Int32.ofNat number)) o.votes]

/-- The statements that place orders, the first of them with this number. -/
def placements : Nat → List Order → Program
  | _, [] => []
  | number, o :: others => orderStatements number o ++ placements (number + 1) others

/-- The statements that open a session and place its orders. -/
def program (s : Session) : Program :=
  .startSession s.name s.reserved :: placements 1 s.orders

/-- The source text that builds a session up from nothing. -/
def script (s : Session) : Text := s.program.render

end Session

end Pizzeria
