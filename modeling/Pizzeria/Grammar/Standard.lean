import Pizzeria.Grammar.Basic

/-!
# The grammar of the language

The forms of statement that programs are written in, and the released versions of
the grammar.  Each version keeps the rules of the one before it, in their order, and
adds its own behind them; so far none has added any.

## Main Definitions

* `Grammar.spl1`, `Grammar.spl11`, `Grammar.spl2` — the released grammars.
* `Grammar.Version` — their names.
-/

namespace Pizzeria

namespace Grammar

/-- The number of orders that a new session sets room aside for. -/
def reservedRoom : Nat := 30

/-- The votes that subverting democracy brings. -/
def subversion : Int32 := 9999

/-- The token at a position.  A signature that accepts the tokens vouches for it. -/
def token (tokens : List Token) (position : Nat) : Except Diagnostic Token :=
  match tokens[position]? with
  | some t => .ok t
  | none => .error (.grammarFault .start "" "a token")

/-! ### Alterations -/

/-- The change that an element makes when it is added as a topping. -/
def addTopping? : Element → Option Alteration
  | .topping a => some (.addTopping a)
  | _ => none

/-- The change that an element makes when it is removed as a topping. -/
def removeTopping? : Element → Option Alteration
  | .topping a => some (.removeTopping a)
  | _ => none

/-- The change that an element makes when it is set as the crust. -/
def setCrust? : Element → Option Alteration
  | .crust c => some (.setCrust c)
  | _ => none

/-- The change that an element makes when it is set as the sauce. -/
def setSauce? : Element → Option Alteration
  | .sauce s => some (.setSauce s)
  | _ => none

/-- The change that an element makes when it is set as the cheese. -/
def setCheese? : Element → Option Alteration
  | .cheese c => some (.setCheese c)
  | _ => none

/-- The element of an alteration is of another kind than its keywords say. -/
def wrongComponent (t : Token) (expected found : Element.Category) : Diagnostic where
  kind := .wrongComponent
  stage := .parsing
  location := t.location
  token := some t.text
  message := "Expected a " ++ expected.name ++ ", found a " ++ found.name

/-- The shape `ALTER PIZZA <order> VERB NOUN <element>`. -/
def alterSignature (verb noun : Keyword) : Signature :=
  [.word .ALTER, .word .PIZZA, .specifier, .word verb, .word noun, .kind .element]

/-- The alteration of an order by an element of the expected kind. -/
def alter (expected : Element.Category) (change? : Element → Option Alteration)
    (tokens : List Token) : Except Diagnostic Statement := do
  let last ← token tokens 5
  let element ← last.element
  match change? element with
  | none => throw (wrongComponent last expected element.category)
  | some alteration =>
      let order ← (← token tokens 2).specifier
      return .alterPizza order alteration

/-! ### The rules -/

/-- The rules about sessions as a whole. -/
def sessionRules : List Rule :=
  [ { signature := [.word .START, .word .SESSION]
      build := fun _ => return .startSession "" reservedRoom },
    { signature := [.word .START, .word .SESSION, .word .AS, .kind .string]
      build := fun ts => return .startSession (← (← token ts 3).string) reservedRoom },
    { signature := [.word .NAME, .word .SESSION, .kind .string]
      build := fun ts => return .nameSession (← (← token ts 2).string) },
    { signature := [.word .END, .word .SESSION]
      build := fun _ => return .endSession },
    { signature := [.word .SAVE, .word .SESSION, .word .TO, .kind .string]
      build := fun ts => return .saveSession (← (← token ts 3).string) },
    { signature := [.word .LOAD, .word .SESSION, .word .FROM, .kind .string]
      build := fun ts => return .loadSession (← (← token ts 3).string) } ]

/-- The rules about orders. -/
def orderRules : List Rule :=
  [ { signature := [.word .ADD, .word .PIZZA, .kind .pizza]
      build := fun ts => return .addPizza (← (← token ts 2).pizza) "" },
    { signature := [.word .ADD, .word .PIZZA, .kind .pizza, .word .AS, .kind .string]
      build := fun ts =>
        return .addPizza (← (← token ts 2).pizza) (← (← token ts 4).string) },
    { signature := [.word .REMOVE, .word .PIZZA, .specifier]
      build := fun ts => return .removePizza (← (← token ts 2).specifier) },
    { signature := [.word .VIEW, .word .PIZZA, .specifier]
      build := fun ts => return .viewPizza (some (← (← token ts 2).specifier)) false },
    { signature := [.word .VIEW, .word .PIZZA]
      build := fun _ => return .viewPizza none false },
    { signature := [.word .VIEW, .word .PIZZA, .specifier, .word .DETAILS]
      build := fun ts => return .viewPizza (some (← (← token ts 2).specifier)) true },
    { signature := [.word .VIEW, .word .PIZZA, .word .DETAILS]
      build := fun _ => return .viewPizza none true } ]

/-- The rules about votes. -/
def votingRules : List Rule :=
  [ { signature := [.word .VOTE, .word .FOR, .word .PIZZA, .specifier]
      build := fun ts => return .votePizza (← (← token ts 3).specifier) 1 },
    { signature := [.word .VOTE, .word .FOR, .word .PIZZA, .specifier, .kind .integer]
      build := fun ts =>
        return .votePizza (← (← token ts 3).specifier) (← (← token ts 4).integer) },
    { signature :=
        [.word .SUBVERT, .word .DEMOCRACY, .word .FOR, .word .PIZZA, .specifier]
      build := fun ts => return .votePizza (← (← token ts 4).specifier) subversion },
    { signature := [.word .SELECT, .word .TOP, .kind .integer, .word .PIZZA]
      build := fun ts => return .selectTop (← (← token ts 2).integer) },
    { signature := [.word .RESET, .word .SESSION, .word .VOTES]
      build := fun _ => return .resetVotes },
    { signature := [.word .RESET, .word .SESSION]
      build := fun _ => return .resetSession } ]

/-- The rules about changes to an order. -/
def alterationRules : List Rule :=
  [ ⟨alterSignature .ADD .TOPPING, alter .topping addTopping?⟩,
    ⟨alterSignature .REMOVE .TOPPING, alter .topping removeTopping?⟩,
    ⟨alterSignature .SET .CRUST, alter .crust setCrust?⟩,
    ⟨alterSignature .SET .SAUCE, alter .sauce setSauce?⟩,
    ⟨alterSignature .SET .CHEESE, alter .cheese setCheese?⟩ ]

/-- The rule for leaving. -/
def quitRule : Rule := ⟨[.word .QUIT], fun _ => return .quit⟩

/-- Version 1 of the grammar. -/
def spl1 : Grammar :=
  ⟨sessionRules ++ orderRules ++ votingRules ++ alterationRules ++ [quitRule]⟩

/-- Version 1.1, which adds nothing to version 1. -/
def spl11 : Grammar := spl1

/-- Version 2, which adds nothing to version 1.1. -/
def spl2 : Grammar := spl11

/-- The released versions of the grammar. -/
inductive Version where
  | spl1 | spl11 | spl2
  deriving DecidableEq, Repr

/-- The version used where none is asked for. -/
instance : Inhabited Version := ⟨.spl2⟩

namespace Version

/-- Every version, oldest first. -/
def all : List Version := [spl1, spl11, spl2]

/-- The number that a user asks for a version by. -/
def number : Version → Text
  | spl1 => "1"
  | spl11 => "1.1"
  | spl2 => "2"

/-- The name of a version. -/
def name (v : Version) : Text := "SPL " ++ v.number

/-- The version with a number. -/
def ofNumber? (number : Text) : Option Version := all.find? fun v => v.number == number

/-- The grammar of a version. -/
def grammar : Version → Grammar
  | spl1 => Grammar.spl1
  | spl11 => Grammar.spl11
  | spl2 => Grammar.spl2

end Version

end Grammar

end Pizzeria
