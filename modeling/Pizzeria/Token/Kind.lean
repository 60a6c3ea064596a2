import Pizzeria.Text

/-!
# Kinds of token

The shape of a token is settled by its first character: a letter begins a keyword,
an opening bracket or quote begins a literal, and a semicolon stands for itself.
-/

namespace Pizzeria

/-- What a token is, before its text is looked at. -/
inductive Token.Kind where
  | keyword | integer | string | pizza | element | delimiter
  deriving DecidableEq, Repr, Inhabited

namespace Token.Kind

/-- Every kind of token. -/
def all : List Token.Kind := [keyword, integer, string, pizza, element, delimiter]

/-- The name used in descriptions. -/
def name : Token.Kind → Text
  | keyword => "keyword"
  | integer => "integer"
  | string => "string"
  | pizza => "pizza"
  | element => "pizza element"
  | delimiter => "delimiter"

end Token.Kind

/-- The closer of a literal, and its kind, by the character that opens it. -/
def bracket? : Char → Option (Char × Token.Kind)
  | '(' => some (')', .integer)
  | '{' => some ('}', .element)
  | '[' => some (']', .pizza)
  | '"' => some ('"', .string)
  | _ => none

end Pizzeria
