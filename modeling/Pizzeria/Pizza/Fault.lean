import Pizzeria.Diagnostic
import Pizzeria.Pizza.Basic

/-!
# Faults of pizza literals

Why the text of a pizza literal, or of one of its clauses, was refused.  A fault
does not know where its literal stands in the source; whoever reads the literal
adds the place.
-/

namespace Pizzeria

/-- A reason for refusing the text of a pizza literal. -/
inductive Pizza.Fault where
  /-- A mark of the literal stands where another one is due. -/
  | mismatch (expected found : Char)
  /-- A character stands outside the clauses. -/
  | errant (found : Char)
  /-- The text ends where a mark is due. -/
  | unterminated (expected : Char)
  /-- The word before the colon names no kind of component. -/
  | unknownComponent (word : Text)
  /-- The word names no component of the kind. -/
  | unrecognized (word : Text)
  /-- A clause says `NONE` without saying of what. -/
  | ambiguousNone
  /-- A clause has more than one colon. -/
  | tooManyColons
  /-- A clause is blank. -/
  | emptyElement
  /-- A second crust, sauce or cheese. -/
  | redefinition (what : Element.Category)
  /-- An arrangement given twice. -/
  | duplicate (arrangement : Arrangement)
  deriving DecidableEq, Repr

namespace Pizza.Fault

/-- The kind of fault under which it is reported. -/
def kind : Fault → Diagnostic.Kind
  | mismatch _ _ => .expectedDifferentToken
  | errant _ => .badLiteral
  | unknownComponent _ | unrecognized _ => .unrecognizedElement
  | ambiguousNone => .ambiguousNone
  | duplicate _ => .duplicateTopping
  | unterminated _ | tooManyColons | emptyElement | redefinition _ => .illFormedPizza

/-- The stage of the literal that found it: cutting into clauses, or reading them. -/
def stage : Fault → Stage
  | mismatch _ _ | errant _ | unterminated _ => .pizzaTokenization
  | _ => .pizzaParsing

/-- The message shown to the user. -/
def message : Fault → Text
  | mismatch expected found =>
      "Expected a '" ++ expected :: "' before the next '" ++ [found] ++ "'"
  | errant found => "Unexpected character '" ++ found :: "'"
  | unterminated expected =>
      "Expected a '" ++ expected :: "' before the end of the pizza specifier"
  | unknownComponent word => word.quoted ++ " is not a pizza component"
  | unrecognized word => "Unrecognized topping or element " ++ word.quoted
  | ambiguousNone => "Ambiguous \"NONE\" (Did you mean no sauce or no cheese?)"
  | tooManyColons => "Too many colons in pizza element specifier"
  | emptyElement => "Empty element"
  | redefinition what => "Redefinition of " ++ what.name ++ " is not allowed"
  | duplicate arrangement => "Duplicate topping " ++ arrangement.title

end Pizza.Fault

end Pizzeria
