import Pizzeria.Program
import Pizzeria.Report

/-!
# Execution

Statements run against a state: the session that is open, the console, the settings,
the number of the statement that runs, and whether the user still wants to go on.

## Main Definitions

* `State`, `Failure` — what statements run against, and why one can fail.
* `Statement.effect` — what a statement does.
* `Program.run` — the statements one after the other, up to the first failure.
* `State.run` — reading and running in one.

## Design Notes

A failure halts the program, and what earlier statements did stays done.  `QUIT` only
clears the flag `running`; the statements behind it still run.
-/

namespace Pizzeria

/-- Why a statement fails. -/
inductive Failure where
  | sessionAlreadyActive
  | noSession
  | noSuchPizza
  | negativeSelection
  | arrangementAlreadyPresent
  deriving DecidableEq, Repr

/-- The message shown to the user. -/
def Failure.message : Failure → Text
  | sessionAlreadyActive => "A session is already active."
  | noSession => "No session active."
  | noSuchPizza => "No such pizza has been ordered."
  | negativeSelection => "Number of selections must be non-negative."
  | arrangementAlreadyPresent => "This topping arrangement is already on the pizza"

/-- What statements run against. -/
structure State where
  session : Option Session := none
  console : Console := {}
  settings : Settings := {}
  /-- The number of the statement that runs, from one. -/
  counter : Nat := 0
  /-- No statement has asked to leave. -/
  running : Bool := true
  deriving DecidableEq

/-- A computation that may change the state and may fail. -/
abbrev Action := EStateM Failure State

namespace Action

/-- The open session. -/
def session : Action Session := do
  match (← get).session with
  | some s => return s
  | none => throw .noSession

/-- The position of the order that a specifier refers to in a session. -/
def position (s : Session) (order : Specifier) : Action Nat :=
  match s.position? order with
  | some i => return i
  | none => throw .noSuchPizza

/-- Put a session in place of the open one. -/
def setSession (s : Session) : Action Unit := modify ({ · with session := some s })

/-- Print texts, and a rule below them. -/
def present (texts : List Text) : Action Unit :=
  modify fun s =>
    { s with console := (s.console.printAll texts).print (horizontalRule s.settings.ruleChar) }

end Action

/-- The pizza with a change made to it.  An arrangement cannot be added twice. -/
def Pizza.alter (p : Pizza) : Alteration → Except Failure Pizza
  | .addTopping a =>
      if p.has a then .error .arrangementAlreadyPresent
      else .ok { p with toppings := p.toppings ++ [a] }
  | .removeTopping a => .ok { p with toppings := p.toppings.filter (· != a) }
  | .setCrust c => .ok { p with crust := c }
  | .setSauce s => .ok { p with sauce := s }
  | .setCheese c => .ok { p with cheese := c }

/-! ### Statements -/

/-- What a statement does. -/
def Statement.effect : Statement → Action Unit
  | startSession name reserved => do
      if (← get).session.isSome then throw .sessionAlreadyActive
      Action.setSession (.start name reserved)
  | nameSession name => modify fun s => { s with session := s.session.map (·.rename name) }
  | endSession => do
      let _ ← Action.session
      modify ({ · with session := none })
  | saveSession _ => Action.present ["Session saving has not been implemented yet."]
  | loadSession _ => Action.present ["Session loading has not been implemented yet."]
  | addPizza pizza name => do
      let s ← Action.session
      Action.setSession (s.add (.place pizza name))
  | removePizza order => do
      let s ← Action.session
      match s.remove? order with
      | some (_, rest) => Action.setSession rest
      | none => throw .noSuchPizza
  | viewPizza none details => do
      let s ← Action.session
      Action.present (s.report details (← get).settings)
  | viewPizza (some order) details => do
      let s ← Action.session
      let i ← Action.position s order
      match s.orders[i]? with
      | some o => Action.present (o.report (some (i + 1)) details (← get).settings)
      | none => throw .noSuchPizza
  | alterPizza order alteration => do
      let s ← Action.session
      let i ← Action.position s order
      match s.orders[i]? with
      | some o =>
          match o.pizza.alter alteration with
          | .ok pizza => Action.setSession (s.modify i ({ · with pizza := pizza }))
          | .error failure => throw failure
      | none => throw .noSuchPizza
  | votePizza order votes => do
      let s ← Action.session
      match s.vote? order votes with
      | some voted => Action.setSession voted
      | none => throw .noSuchPizza
  | selectTop count => do
      let s ← Action.session
      if count.toInt < 0 then throw .negativeSelection
      Action.present (s.topReport count.toInt.toNat (← get).settings)
  | resetVotes => do
      let s ← Action.session
      Action.setSession s.resetVotes
  | resetSession => do
      let s ← Action.session
      Action.setSession s.reset
  | quit => modify ({ · with running := false })

/-! ### Programs -/

/-- How the run of a program ended. -/
inductive Status where
  | finished | halted
  deriving DecidableEq, Repr

/-- The number that a status is reported as. -/
def Status.code : Status → Nat
  | finished => 0
  | halted => 1

namespace Program

/-- The line about a failed statement. -/
def failureLine (number : Nat) (failure : Failure) : Text :=
  "Statement #" ++ Text.ofNat number ++ ": Error: " ++ failure.message

/-- Run statements, the first of them under the number that the state is at. -/
def runFrom : Program → State → Status × State
  | [], s => (.finished, { s with console := s.console.forStatement 0 })
  | statement :: rest, s =>
      match statement.effect { s with console := s.console.forStatement s.counter } with
      | .ok _ s' => runFrom rest { s' with counter := s'.counter + 1 }
      | .error failure s' =>
          let console := s'.console.error (failureLine s'.counter failure)
          (.halted, { s' with console := console.forStatement 0 })

/-- Run a program: a rule, then its statements up to the first failure. -/
def run (program : Program) (s : State) : Status × State :=
  runFrom program
    { s with
      console := s.console.print (horizontalRule s.settings.ruleChar)
      counter := 1 }

end Program

namespace State

/-- The last line of a halted run. -/
def haltLine : Text := "Error encountered, execution halted."

/-- Read a source text and run it.  Nothing runs unless the whole text is a program. -/
def run (g : Grammar) (source : Text) (s : State) :
    Except Diagnostic (Status × State) := do
  let program ← Program.ofSource g source
  match program.run s with
  | (.finished, s') => return (.finished, s')
  | (.halted, s') => return (.halted, { s' with console := s'.console.error haltLine })

end State

end Pizzeria
