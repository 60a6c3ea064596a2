import Pizzeria.Menu

/-!
# Keywords

The reserved words of the language.  They are recognised in any case and written
in capitals.
-/

namespace Pizzeria

/-- A reserved word, named by its spelling. -/
inductive Keyword where
  | PIZZA | SESSION
  | ADD | ALTER | AS | CHEESE | CRUST | DEMOCRACY | DETAILS | END | FOR | FROM | LOAD
  | NAME | QUIT | REMOVE | RESET | SAUCE | SAVE | SELECT | SET | START | SUBVERT | TO
  | TOP | TOPPING | VIEW | VOTE | VOTES
  deriving DecidableEq, Repr, Inhabited

namespace Keyword

/-- Every keyword: the two nouns of the language, then the others by the alphabet. -/
def all : List Keyword :=
  [PIZZA, SESSION, ADD, ALTER, AS, CHEESE, CRUST, DEMOCRACY, DETAILS, END, FOR, FROM,
    LOAD, NAME, QUIT, REMOVE, RESET, SAUCE, SAVE, SELECT, SET, START, SUBVERT, TO, TOP,
    TOPPING, VIEW, VOTE, VOTES]

/-- The spelling in capitals. -/
def spelling : Keyword → Text
  | PIZZA => "PIZZA"
  | SESSION => "SESSION"
  | ADD => "ADD"
  | ALTER => "ALTER"
  | AS => "AS"
  | CHEESE => "CHEESE"
  | CRUST => "CRUST"
  | DEMOCRACY => "DEMOCRACY"
  | DETAILS => "DETAILS"
  | END => "END"
  | FOR => "FOR"
  | FROM => "FROM"
  | LOAD => "LOAD"
  | NAME => "NAME"
  | QUIT => "QUIT"
  | REMOVE => "REMOVE"
  | RESET => "RESET"
  | SAUCE => "SAUCE"
  | SAVE => "SAVE"
  | SELECT => "SELECT"
  | SET => "SET"
  | START => "START"
  | SUBVERT => "SUBVERT"
  | TO => "TO"
  | TOP => "TOP"
  | TOPPING => "TOPPING"
  | VIEW => "VIEW"
  | VOTE => "VOTE"
  | VOTES => "VOTES"

/-- The keyword that a word spells. -/
def ofWord? (word : Text) : Option Keyword :=
  findWord (all.map fun k => (k.spelling, k)) word

end Keyword

end Pizzeria
