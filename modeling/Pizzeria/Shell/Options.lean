import Pizzeria.Grammar.Standard
import Pizzeria.Report

/-!
# Options

What the arguments of the command line ask for.  Arguments are read in order and the
first fault decides, except that a request for the version or for help is granted as
soon as it is met.

## Main Definitions

* `Options`, `Request` — what can be asked for.
* `Options.Fault` — why arguments are refused.
* `Request.ofArguments` — the request that arguments make.

## Design Notes

A flag and an option are given at most once, by their full names.  The value of an
option follows it, behind `=` or as the next argument.  Everything that does not begin
with a dash, and everything behind `--`, is the path of a script; `-` alone is one too.
-/

namespace Pizzeria

/-- The rules that can be chosen. -/
inductive RuleStyle where
  | dash | slash | tilde
  deriving DecidableEq, Repr, Inhabited

namespace RuleStyle

/-- Every style. -/
def all : List RuleStyle := [dash, slash, tilde]

/-- The name that a style is chosen by. -/
def name : RuleStyle → Text
  | dash => "dash"
  | slash => "slash"
  | tilde => "tilde"

/-- The character that the rule is drawn with. -/
def char : RuleStyle → Char
  | dash => '-'
  | slash => '/'
  | tilde => '~'

/-- The style with a name. -/
def ofName? (name : Text) : Option RuleStyle := all.find? fun s => s.name == name

end RuleStyle

/-- The flags that can be given. -/
inductive Flag where
  | detail | doubleArrow | noRepl | noColor
  deriving DecidableEq, Repr

namespace Flag

/-- Every flag. -/
def all : List Flag := [detail, doubleArrow, noRepl, noColor]

/-- The name of a flag, without its dashes. -/
def name : Flag → Text
  | detail => "detail"
  | doubleArrow => "double-arrow"
  | noRepl => "no-repl"
  | noColor => "no-color"

/-- The flag with a name. -/
def ofName? (name : Text) : Option Flag := all.find? fun f => f.name == name

end Flag

/-- What the arguments of a run say. -/
structure Options where
  /-- The paths of the scripts, in order. -/
  scripts : List Text := []
  flags : List Flag := []
  rule : Option RuleStyle := none
  grammar : Option Grammar.Version := none
  deriving DecidableEq, Repr

/-- What a user asks for. -/
inductive Request where
  | run (options : Options)
  | version
  | help
  deriving DecidableEq, Repr

/-- Why arguments are refused. -/
inductive Options.Fault where
  | unknown (argument : Text)
  | repeated (argument : Text)
  | missingValue (option : Text)
  | badValue (option value : Text)
  | unneededValue (argument : Text)
  | emptyPath
  deriving DecidableEq, Repr

namespace Options

/-- The message shown to the user. -/
def Fault.message : Fault → Text
  | unknown argument => "unexpected argument " ++ argument.quoted
  | repeated argument => "the argument " ++ argument.quoted ++ " cannot be used multiple times"
  | missingValue option => "a value is required for " ++ option.quoted
  | badValue option value => "invalid value " ++ value.quoted ++ " for " ++ option.quoted
  | unneededValue argument => "unexpected value for " ++ argument.quoted
  | emptyPath => "a script needs a path"

/-- The flag is given. -/
def has (o : Options) (f : Flag) : Bool := o.flags.contains f

/-- The settings that the options choose. -/
def settings (o : Options) : Settings where
  detail := o.has .detail
  ruleChar := (o.rule.getD .dash).char
  prompt := if o.has .doubleArrow then ">> " else "> "

/-- The options with a flag. -/
def addFlag (o : Options) (f : Flag) : Except Fault Options :=
  if o.has f then .error (.repeated f.name) else .ok { o with flags := f :: o.flags }

/-- The options with a value for `--rule`. -/
def setRule (o : Options) (value : Text) : Except Fault Options :=
  match RuleStyle.ofName? value with
  | none => .error (.badValue "rule" value)
  | some style =>
      if o.rule.isSome then .error (.repeated "rule") else .ok { o with rule := some style }

/-- The options with a value for `--grammar`. -/
def setGrammar (o : Options) (value : Text) : Except Fault Options :=
  match Grammar.Version.ofNumber? value with
  | none => .error (.badValue "grammar" value)
  | some version =>
      if o.grammar.isSome then .error (.repeated "grammar")
      else .ok { o with grammar := some version }

/-- The options with a script. -/
def addScript (o : Options) (path : Text) : Except Fault Options :=
  if path.isEmpty then .error .emptyPath else .ok { o with scripts := o.scripts ++ [path] }

/-- How a value changes the options, for the name of an option that takes one. -/
def setter? (name : Text) : Option (Options → Text → Except Fault Options) :=
  if name = "rule" then some setRule
  else if name = "grammar" then some setGrammar
  else none

/-- The name of a long argument, and the value attached to it. -/
def splitValue (long : Text) : Text × Option Text :=
  match long.dropWhile (· != '=') with
  | [] => (long, none)
  | _ :: value => (long.takeWhile (· != '='), some value)

end Options

/-- What one argument asks for. -/
inductive Argument where
  /-- Everything behind it is a path. -/
  | separator
  | path (path : Text)
  /-- A name behind two dashes, and the value attached to it. -/
  | long (name : Text) (value : Option Text)
  /-- A letter behind one dash, whatever follows it. -/
  | short (letter : Char)
  deriving DecidableEq, Repr

/-- The shape of an argument. -/
def Argument.ofText : Text → Argument
  | ['-', '-'] => .separator
  | '-' :: '-' :: name =>
      let (name, value) := Options.splitValue name
      .long name value
  | '-' :: letter :: _ => .short letter
  | other => .path other

namespace Request

open Options (Fault)

/-- The request of a short argument. -/
def ofShort (letter : Char) : Except Fault Request :=
  if letter = 'V' then .ok .version
  else if letter = 'h' then .ok .help
  else .error (.unknown ['-', letter])

/-- The request that the rest of the arguments makes, with the options so far. -/
def ofArgumentsFrom (o : Options) : List Text → Except Fault Request
  | [] => .ok (.run o)
  | argument :: rest =>
      match Argument.ofText argument with
      | .separator => (rest.foldlM Options.addScript o).map .run
      | .path path => do ofArgumentsFrom (← o.addScript path) rest
      | .short letter => ofShort letter
      | .long name value =>
          match Options.setter? name, value with
          | some set, some value => do ofArgumentsFrom (← set o value) rest
          | some set, none =>
              match rest with
              | [] => .error (.missingValue name)
              | value :: rest => do ofArgumentsFrom (← set o value) rest
          | none, some _ => .error (.unneededValue name)
          | none, none =>
              if name = "version" then .ok .version
              else if name = "help" then .ok .help
              else
                match Flag.ofName? name with
                | none => .error (.unknown name)
                | some flag => do ofArgumentsFrom (← o.addFlag flag) rest

/-- The request that the arguments of the command line make. -/
def ofArguments (arguments : List Text) : Except Fault Request :=
  ofArgumentsFrom {} arguments

end Request

end Pizzeria
