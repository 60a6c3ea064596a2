import Pizzeria.Pizza.Literal
import Pizzeria.Token.Basic
import Pizzeria.Token.Integer
import Pizzeria.Token.Lexeme

/-!
# Decoding

A lexeme is decoded according to its kind: a keyword is looked up, an integer is
read as 32 bits, a string has to be ASCII, and pizzas and their elements are read
as literals.  The brackets of a literal are dropped unseen.

## Main Definitions

* `Lexeme.decode` — the token that a lexeme stands for.
* `Token.ofLexemes` — the tokens of a list of lexemes, up to the first fault.
* `Token.ofText` — the tokens of a text without comments.
-/

namespace Pizzeria

namespace Lexeme

/-- The lexeme is refused. -/
def refusal (x : Lexeme) (kind : Diagnostic.Kind) (message : Text) : Diagnostic where
  kind := kind
  stage := .lexing
  location := x.location
  token := some x.text
  message := message

/-- What a numeral that means no integer is reported as. -/
def integerMessage (digits : Text) : Integer.Fault → Text
  | .digits => "Invalid integer " ++ digits.quoted ++ " - unrecognized digit(s)"
  | .range =>
      "Invalid integer " ++ digits.quoted ++ " - value causes overflow or underflow"

/-- The value that a lexeme means. -/
def value (x : Lexeme) : Except Diagnostic Token.Value :=
  match x.kind with
  | .keyword =>
      match Keyword.ofWord? x.text with
      | some word => .ok (.keyword word)
      | none => .error (x.refusal .invalidKeyword ("Invalid keyword " ++ x.text.quoted))
  | .integer =>
      match Integer.read x.text.interior.trim with
      | .ok n => .ok (.integer n)
      | .error fault =>
          .error (x.refusal .invalidInteger (integerMessage x.text.interior fault))
  | .string =>
      if x.text.interior.all isAscii then .ok (.string x.text.interior)
      else
        .error (x.refusal .invalidString
          ("Invalid string " ++ x.text.interior.quoted ++ " (contains non-ASCII characters)"))
  | .pizza =>
      match Pizza.ofText x.text.interior with
      | .ok p => .ok (.pizza p)
      | .error fault => .error (x.refusal fault.kind fault.message)
  | .element =>
      match Element.ofText x.text.interior with
      | .ok e => .ok (.element e)
      | .error fault => .error (x.refusal fault.kind fault.message)
  | .delimiter => .ok .delimiter

/-- The token that a lexeme stands for. -/
def decode (x : Lexeme) : Except Diagnostic Token :=
  x.value.map fun value => ⟨value, x.location, x.text⟩

end Lexeme

namespace Token

/-- The tokens that lexemes stand for; the first fault refuses them all. -/
def ofLexemes (lexemes : List Lexeme) : Except Diagnostic (List Token) :=
  lexemes.mapM Lexeme.decode

/-- The tokens of a text without comments. -/
def ofText (text : Text) : Except Diagnostic (List Token) := do
  let lexemes ← Lexeme.scan text
  ofLexemes lexemes

end Token

end Pizzeria
