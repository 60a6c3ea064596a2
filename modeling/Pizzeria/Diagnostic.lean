import Pizzeria.Source.Location

/-!
# Diagnostics

Why a source text was refused.  A diagnostic carries the kind of fault with its
published number, the stage that found it, the place in the source, the text of
the offending token if there is one, and a message.

## Main Definitions

* `Diagnostic.Kind`, `Diagnostic.Kind.number` — the kinds of fault.
* `Stage` — the stages that a source text goes through.
* `Diagnostic.render` — the one-line report.
-/

namespace Pizzeria

/-- The stages that a source text goes through, those of a pizza literal last. -/
inductive Stage where
  | preprocessing | tokenization | lexing | parsing | pizzaTokenization | pizzaParsing
  deriving DecidableEq, Repr, Inhabited

namespace Stage

/-- Every stage. -/
def all : List Stage :=
  [preprocessing, tokenization, lexing, parsing, pizzaTokenization, pizzaParsing]

/-- The name used in reports. -/
def name : Stage → Text
  | preprocessing => "Preprocessing"
  | tokenization => "Tokenization"
  | lexing => "Lexing"
  | parsing => "Parsing"
  | pizzaTokenization => "Pizza Tokenization"
  | pizzaParsing => "Pizza Parsing"

end Stage

/-- The kinds of fault, in the order of their numbers. -/
inductive Diagnostic.Kind where
  | endOfInput
  | unrecognizedToken
  | invalidStatement
  | invalidKeyword
  | invalidInteger
  | invalidString
  | invalidTokenType
  | wrongComponent
  | unrecognizedElement
  | badLiteral
  | illFormedPizza
  | duplicateTopping
  | ambiguousNone
  | missingDelimiter
  | expectedDifferentToken
  deriving DecidableEq, Repr, Inhabited

namespace Diagnostic.Kind

/-- Every kind of fault. -/
def all : List Kind :=
  [endOfInput, unrecognizedToken, invalidStatement, invalidKeyword, invalidInteger,
    invalidString, invalidTokenType, wrongComponent, unrecognizedElement, badLiteral,
    illFormedPizza, duplicateTopping, ambiguousNone, missingDelimiter,
    expectedDifferentToken]

/-- The published number of a kind of fault. -/
def number : Kind → Nat
  | endOfInput => 1
  | unrecognizedToken => 2
  | invalidStatement => 3
  | invalidKeyword => 4
  | invalidInteger => 5
  | invalidString => 6
  | invalidTokenType => 7
  | wrongComponent => 8
  | unrecognizedElement => 9
  | badLiteral => 10
  | illFormedPizza => 11
  | duplicateTopping => 12
  | ambiguousNone => 13
  | missingDelimiter => 14
  | expectedDifferentToken => 15

end Diagnostic.Kind

/-- A located fault in a source text. -/
structure Diagnostic where
  kind : Diagnostic.Kind
  stage : Stage
  location : Location
  /-- The text of the offending token; absent when the input ended inside one. -/
  token : Option Text
  message : Text
  deriving DecidableEq, Repr, Inhabited

namespace Diagnostic

/-- The input ended before something that began at `location` was complete. -/
def endOfInput (stage : Stage) (location : Location) : Diagnostic where
  kind := .endOfInput
  stage := stage
  location := location
  token := none
  message := "Reached EOF while parsing"

/-- A statement builder met a token that its signature rules out.  No source text
leads here: it marks a faulty grammar. -/
def grammarFault (location : Location) (token expected : Text) : Diagnostic where
  kind := .invalidTokenType
  stage := .parsing
  location := location
  token := some token
  message := "Invalid token type, expected " ++ expected ++
    " (this is a bug in the interpreter, not in your program)"

/-- The fault lies in the grammar and not in the source text. -/
def isGrammarFault (d : Diagnostic) : Bool := d.kind == .invalidTokenType

/-- The part of a report that names the token; an empty token is not named. -/
def tokenClause : Option Text → Text
  | some (c :: cs) => "with token " ++ c :: cs ++ " "
  | _ => ""

/-- The one-line report. -/
def render (d : Diagnostic) : Text :=
  d.stage.name ++ " error " ++ tokenClause d.token ++
    "at line " ++ Text.ofNat d.location.line ++
    ", character " ++ Text.ofNat d.location.character ++
    ": " ++ d.message ++ " (Error ID " ++ Text.ofNat d.kind.number ++ ")"

end Diagnostic

end Pizzeria
