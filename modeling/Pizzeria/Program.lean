import Pizzeria.Grammar.Basic
import Pizzeria.Source.Comment
import Pizzeria.Token.Decoding

/-!
# Programs

A program is read from source text in four steps: comments are left out, the text
is cut into lexemes, these are decoded into tokens, and the tokens are split at the
delimiters into statements.  The first fault of the earliest step refuses the whole
text.

## Main Definitions

* `Program.segments` — the tokens between delimiters, and those behind the last.
* `Program.ofTokens` — the program that tokens mean.
* `Program.ofSource` — the program that a source text means.

## Design Notes

The tokens are split completely before the first statement is built, so a missing
last delimiter is reported ahead of a faulty statement.  Empty segments, between two
delimiters, mean nothing.
-/

namespace Pizzeria.Program

/-- The segments that a delimiter ends, delimiters dropped, and the tokens behind
the last delimiter. -/
def segments : List Token → List (List Token) × List Token
  | [] => ([], [])
  | t :: ts =>
      let (closed, rest) := segments ts
      if t.isDelimiter then ([] :: closed, rest)
      else
        match closed with
        | [] => ([], t :: rest)
        | segment :: others => ((t :: segment) :: others, rest)

/-- The tokens end without a delimiter behind the statement that begins with `t`. -/
def missingDelimiter (t : Token) : Diagnostic where
  kind := .missingDelimiter
  stage := .parsing
  location := t.location
  token := some t.text
  message := "Expected a statement delimiter (;) before reaching EOF"

/-- The program that tokens mean. -/
def ofTokens (g : Grammar) (tokens : List Token) : Except Diagnostic Program :=
  match segments tokens with
  | (_, t :: _) => .error (missingDelimiter t)
  | (closed, []) => (closed.filter fun segment => !segment.isEmpty).mapM g.statement

/-- The text, with a newline at its end. -/
def closeLine (text : Text) : Text :=
  if text.getLast? = some '\n' then text else text ++ ['\n']

/-- The program that a source text means.  Blank text is the empty program. -/
def ofSource (g : Grammar) (source : Text) : Except Diagnostic Program :=
  if source.isBlank then .ok []
  else do
    let code ← uncomment (closeLine source)
    let tokens ← Token.ofText code
    ofTokens g tokens

end Pizzeria.Program
