import Pizzeria.Diagnostic
import Pizzeria.Statement
import Pizzeria.Token.Keyword
import Pizzeria.Token.Kind

/-!
# Tokens

A token is a decoded lexeme: a value together with the place and the text that it
was read from.  The kind of a token is read off its value.

## Main Definitions

* `Token`, `Token.Value`, `Token.kind` — tokens.
* `Token.integer`, `Token.string`, `Token.pizza`, `Token.element`,
  `Token.specifier` — the value of a token, where it has the kind asked for.
-/

namespace Pizzeria

/-- What a token means. -/
inductive Token.Value where
  | keyword (word : Keyword)
  | integer (number : Int32)
  | string (content : Text)
  | pizza (pizza : Pizza)
  | element (element : Element)
  | delimiter
  deriving DecidableEq

/-- The kind of token that has a value. -/
def Token.Value.kind : Token.Value → Token.Kind
  | keyword _ => .keyword
  | integer _ => .integer
  | string _ => .string
  | pizza _ => .pizza
  | element _ => .element
  | delimiter => .delimiter

/-- A decoded token. -/
structure Token where
  value : Token.Value
  location : Location
  text : Text
  deriving DecidableEq

namespace Token

/-- The kind of a token. -/
def kind (t : Token) : Kind := t.value.kind

/-- The token is the given keyword. -/
def isKeyword (t : Token) (k : Keyword) : Bool := t.value == .keyword k

/-- The token ends a statement. -/
def isDelimiter (t : Token) : Bool := t.value == .delimiter

/-- The token is not what a statement builder asks for. -/
def mismatch (t : Token) (expected : Text) : Diagnostic :=
  .grammarFault t.location t.text expected

/-- The number that an integer token means. -/
def integer (t : Token) : Except Diagnostic Int32 :=
  match t.value with
  | .integer n => .ok n
  | _ => .error (t.mismatch "an integer")

/-- The content of a string token. -/
def string (t : Token) : Except Diagnostic Text :=
  match t.value with
  | .string s => .ok s
  | _ => .error (t.mismatch "a string")

/-- The pizza that a pizza token means. -/
def pizza (t : Token) : Except Diagnostic Pizza :=
  match t.value with
  | .pizza p => .ok p
  | _ => .error (t.mismatch "a pizza")

/-- The component that an element token means. -/
def element (t : Token) : Except Diagnostic Element :=
  match t.value with
  | .element e => .ok e
  | _ => .error (t.mismatch "a pizza element")

/-- The order that an integer, a string or a pizza refers to. -/
def specifier (t : Token) : Except Diagnostic Specifier :=
  match t.value with
  | .integer n => .ok (.index n)
  | .string s => .ok (.name s)
  | .pizza p => .ok (.replica p)
  | _ => .error (t.mismatch "a pizza specifier")

end Token

end Pizzeria
