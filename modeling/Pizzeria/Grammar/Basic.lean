import Pizzeria.Grammar.Signature

/-!
# Grammars

A grammar is a list of rules, each a signature together with the way to build a
statement from tokens that fill it.  The first rule whose signature accepts the
tokens decides, so the order of the rules matters where signatures overlap;
`Grammar.overlaps` finds these.

## Main Definitions

* `Rule`, `Grammar`, `Grammar.add` — grammars, and how they are extended.
* `Grammar.find?`, `Grammar.accepts`, `Grammar.build?` — the deciding rule, and the
  statement that it builds.
* `Grammar.overlaps` — the pairs of rules that compete for some tokens.
* `Grammar.statement` — the statement that tokens mean, or why they mean none.
-/

namespace Pizzeria

/-- One form of statement. -/
structure Rule where
  signature : Signature
  /-- The statement of tokens that fill the signature. -/
  build : List Token → Except Diagnostic Statement

/-- The forms of statement, in the order in which they are tried. -/
structure Grammar where
  rules : List Rule

namespace Grammar

/-- The grammar without rules. -/
def empty : Grammar := ⟨[]⟩

/-- The grammar with one more rule, tried last. -/
def add (g : Grammar) (signature : Signature)
    (build : List Token → Except Diagnostic Statement) : Grammar :=
  ⟨g.rules ++ [⟨signature, build⟩]⟩

/-- The number of rules. -/
def size (g : Grammar) : Nat := g.rules.length

/-- The signatures, in order. -/
def signatures (g : Grammar) : List Signature := g.rules.map Rule.signature

/-- The first rule whose signature accepts the tokens. -/
def find? (g : Grammar) (tokens : List Token) : Option Rule :=
  g.rules.find? fun rule => rule.signature.accepts tokens

/-- Some rule accepts the tokens. -/
def accepts (g : Grammar) (tokens : List Token) : Bool := (g.find? tokens).isSome

/-- What the deciding rule builds; `none` if no rule accepts the tokens. -/
def build? (g : Grammar) (tokens : List Token) : Option (Except Diagnostic Statement) :=
  (g.find? tokens).map fun rule => rule.build tokens

/-- The positions of two rules, the first before the second, that accept some
common tokens. -/
def overlaps (g : Grammar) : List (Nat × Nat) :=
  g.signatures.zipIdx.flatMap fun (a, i) =>
    (g.signatures.zipIdx.drop (i + 1)).filterMap fun (b, j) =>
      if a.overlaps b then some (i, j) else none

/-- The signatures in quotes, as a bracketed list. -/
def render (g : Grammar) : Text :=
  '[' :: Text.join ", " (g.signatures.map fun s => s.render.quoted) ++ "]"

/-- No rule accepts the tokens.  The first of them is named; without any, the
beginning of the text is. -/
def invalidStatement (tokens : List Token) : Diagnostic where
  kind := .invalidStatement
  stage := .parsing
  location := (tokens.head?.map Token.location).getD .start
  token := some ((tokens.head?.map Token.text).getD "")
  message :=
    "Invalid statement (You may be missing a semicolon, or the keywords might be in the wrong order.)"

/-- The statement that tokens without a delimiter mean. -/
def statement (g : Grammar) (tokens : List Token) : Except Diagnostic Statement :=
  match g.build? tokens with
  | some built => built
  | none => .error (invalidStatement tokens)

end Grammar

end Pizzeria
