import Pizzeria.Pizza.Fault

/-!
# Pizza literals

Between its outer brackets a pizza literal is a list of clauses in braces,
separated by commas.  Each clause gives one component of the pizza, either as
`KIND:VALUE` or as a bare value whose kind is inferred.  Reading goes through
three steps, and the first fault of an earlier step wins over every fault of a
later one: the text is cut into clauses, the clauses are read as elements, and
the elements are assembled into a pizza.

## Main Definitions

* `Pizza.clauses` — the clauses of a literal, braces included.
* `Element.ofText` — the element that the body of a clause gives.
* `Pizza.ofElements` — the pizza with the given components.
* `Pizza.ofText` — the three steps together.
-/

namespace Pizzeria

open Pizza (Fault)

/-! ### Clauses -/

/-- What the text of a literal has to bring next. -/
inductive Pizza.Awaiting where
  /-- An opening brace. -/
  | opening
  /-- The closing brace of the clause that reads `clause` so far. -/
  | closing (clause : Text)
  /-- A comma, or the end. -/
  | comma
  deriving DecidableEq, Repr

/-- The mark that is due. -/
def Pizza.Awaiting.mark : Pizza.Awaiting → Char
  | opening => '{'
  | closing _ => '}'
  | comma => ','

/-- The clauses of the rest of a literal. -/
def Pizza.clausesFrom : Pizza.Awaiting → Text → Except Fault (List Text)
  | .comma, [] => .ok []
  | due, [] => .error (.unterminated due.mark)
  | due, c :: cs =>
      if c = due.mark then
        match due with
        | .opening => clausesFrom (.closing [c]) cs
        | .closing clause => (clausesFrom .comma cs).map ((clause ++ [c]) :: ·)
        | .comma => clausesFrom .opening cs
      else if isClauseMark c then .error (.mismatch due.mark c)
      else
        match due with
        | .closing clause => clausesFrom (.closing (clause ++ [c])) cs
        | _ => if isSpace c then clausesFrom due cs else .error (.errant c)

/-- The clauses between the outer brackets of a literal, braces included.  Blank
text has none. -/
def Pizza.clauses (text : Text) : Except Fault (List Text) :=
  if text.isBlank then .ok [] else clausesFrom .opening text

/-! ### Elements -/

namespace Element

/-- How the value of a clause is read, by the word before its colon. -/
def reader? (kind : Text) : Option (Text → Option Element) :=
  if kind.upper = "CRUST" then some fun value => (Crust.ofWord? value).map crust
  else if kind.upper = "SAUCE" then some fun value => (Sauce.ofWord? value).map sauce
  else if kind.upper = "CHEESE" then some fun value => (Cheese.ofWord? value).map cheese
  else
    (Position.ofWord? kind).map fun position value =>
      (Topping.ofWord? value).map fun t => topping ⟨position, t⟩

/-- The element that `KIND:VALUE` gives. -/
def explicit (kind value : Text) : Except Fault Element :=
  match reader? kind with
  | none => .error (.unknownComponent kind)
  | some read =>
      match read value with
      | none => .error (.unrecognized value)
      | some element => .ok element

/-- The component that a bare word names: a crust, else a sauce, else a cheese,
else a topping on the whole pizza. -/
def ofWord? (word : Text) : Option Element :=
  (Crust.ofWord? word).map crust
    |>.or ((Sauce.ofWord? word).map sauce)
    |>.or ((Cheese.ofWord? word).map cheese)
    |>.or ((Topping.ofWord? word).map fun t => topping ⟨.whole, t⟩)

/-- The element that a bare word gives.  `NONE` could be a sauce or a cheese. -/
def inferred (word : Text) : Except Fault Element :=
  if word.upper = "NONE" then .error .ambiguousNone
  else
    match ofWord? word with
    | none => .error (.unrecognized word)
    | some element => .ok element

/-- The element that the body of a clause gives. -/
def ofText (body : Text) : Except Fault Element :=
  match body.trim with
  | [] => .error .emptyElement
  | c :: cs =>
      match Text.split ':' (c :: cs) with
      | [word] => inferred word
      | [kind, value] => explicit kind.trim value.trim
      | _ => .error .tooManyColons

/-- The elements that clauses give, the braces of each clause dropped. -/
def ofClauses (clauses : List Text) : Except Fault (List Element) :=
  clauses.mapM fun clause => ofText clause.interior

end Element

/-! ### Assembly -/

namespace Pizza

/-- A pizza being put together; a base component is absent until it is named. -/
structure Draft where
  crust : Option Crust := none
  sauce : Option Sauce := none
  cheese : Option Cheese := none
  toppings : List Arrangement := []
  deriving DecidableEq, Repr

namespace Draft

/-- The draft with one more component.  A base component is named at most once,
and so is an arrangement. -/
def place (d : Draft) : Element → Except Fault Draft
  | .crust c =>
      if d.crust.isSome then .error (.redefinition .crust)
      else .ok { d with crust := some c }
  | .sauce s =>
      if d.sauce.isSome then .error (.redefinition .sauce)
      else .ok { d with sauce := some s }
  | .cheese c =>
      if d.cheese.isSome then .error (.redefinition .cheese)
      else .ok { d with cheese := some c }
  | .topping a =>
      if a ∈ d.toppings then .error (.duplicate a)
      else .ok { d with toppings := d.toppings ++ [a] }

/-- The pizza of a draft, base components that were not named at their defaults. -/
def finish (d : Draft) : Pizza where
  crust := d.crust.getD defaultCrust
  sauce := d.sauce.getD defaultSauce
  cheese := d.cheese.getD defaultCheese
  toppings := d.toppings

end Draft

/-- The pizza with the given components. -/
def ofElements (elements : List Element) : Except Fault Pizza :=
  (elements.foldlM Draft.place {}).map Draft.finish

/-- The pizza that the text between the outer brackets of a literal means. -/
def ofText (text : Text) : Except Fault Pizza := do
  let clauses ← clauses text
  let elements ← Element.ofClauses clauses
  ofElements elements

end Pizza

end Pizzeria
