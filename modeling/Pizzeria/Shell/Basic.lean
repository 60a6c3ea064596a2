import Pizzeria.Execution
import Pizzeria.Shell.Input
import Pizzeria.Shell.Options
import Pizzeria.Shell.Palette

/-!
# The shell

The shell runs scripts and then reads statements at a prompt, until the user leaves or
the input ends.  What it does is a function of its arguments, the files it is pointed
to and the standard input; the output is text.

## Main Definitions

* `Shell` — a state, a grammar, and whether to paint.
* `Shell.submit` — run a source text and show what it printed.
* `Shell.runScripts`, `Shell.converse` — scripts, and the prompt.
* `Shell.perform` — the whole command.
-/

namespace Pizzeria

/-- A running shell. -/
structure Shell where
  state : State
  grammar : Grammar
  /-- Paint what is written. -/
  colored : Bool

/-- What a part of the shell's work came to. -/
structure Transcript where
  shell : Shell
  /-- What was written. -/
  output : Text
  /-- Something could not be read, and the shell gives up. -/
  failed : Bool := false

/-- What the whole command came to. -/
structure Outcome where
  exitCode : Nat
  output : Text
  deriving DecidableEq, Repr

namespace Shell

/-- The first line that the shell writes. -/
def welcome : Text := "Welcome to the Structured Pizza Language Interpreter v1.0!"

/-- The answer to a request for the version. -/
def versionLine : Text := "spl 0.1.0\n"

/-- The answer to a request for help. -/
def usage : Text :=
  "Structured Pizza Language interpreter\n\nUsage: spl [OPTIONS] [SCRIPTS]...\n\nOptions:\n  --detail, --double-arrow, --no-repl, --no-color\n  --rule dash|slash|tilde\n  --grammar 1|1.1|2\n  -h, --help\n  -V, --version\n"

/-- The shell that options ask for. -/
def start (o : Options) : Shell where
  state := { settings := o.settings }
  grammar := (o.grammar.getD default).grammar
  colored := !o.has .noColor

/-- The text in a colour, if the shell paints. -/
def paint (sh : Shell) (color : Color) (text : Text) : Text :=
  if sh.colored then color.paint text else text

/-- A line of output. -/
def line (sh : Shell) (color : Color) (text : Text) : Text := sh.paint color text ++ ['\n']

/-- The line that greets the user. -/
def greeting (sh : Shell) : Text := sh.line Palette.standard.banner welcome

/-- The line about a refused source text. -/
def diagnosticLine (sh : Shell) (d : Diagnostic) : Text :=
  if d.isGrammarFault then
    sh.line Palette.standard.internal ("Interpreter bug, please report it: " ++ d.render)
  else sh.line Palette.standard.diagnostic d.render

/-- A printed line, in the colour of its kind.  A rule has a colour of its own. -/
def consoleLine (sh : Shell) (l : Console.Line) : Text :=
  if l.kind = .output ∧ l.text = horizontalRule sh.state.settings.ruleChar then
    sh.line Palette.standard.rule l.text
  else sh.line (Palette.standard.line l.kind) l.text

/-- Write out what the console holds. -/
def flush (sh : Shell) : Transcript :=
  let (lines, console) := sh.state.console.takeLines
  { shell := { sh with state := { sh.state with console := console } }
    output := lines.flatMap sh.consoleLine }

/-- Run a source text and show what it printed, or why it was refused. -/
def submit (sh : Shell) (source : Text) : Transcript :=
  match sh.state.run sh.grammar source with
  | .ok (_, state) => flush { sh with state := state }
  | .error d => { sh.flush with output := sh.diagnosticLine d ++ sh.flush.output }

/-! ### Scripts -/

/-- Run what was found under the path of a script. -/
def runScript (sh : Shell) (path : Text) : Script → Transcript
  | .missing =>
      { shell := sh
        output :=
          sh.line Palette.standard.notice ("File " ++ path.quoted ++ " does not exist.") }
  | .unreadable => { shell := sh, output := [], failed := true }
  | .source text => sh.submit text

/-- Run scripts one after the other while the user has not asked to leave. -/
def runScripts (find : Text → Script) (sh : Shell) : List Text → Transcript
  | [] => { shell := sh, output := [] }
  | path :: paths =>
      if sh.state.running then
        let first := sh.runScript path (find path)
        if first.failed then first
        else
          let others := runScripts find first.shell paths
          { others with output := first.output ++ others.output }
      else { shell := sh, output := [] }

/-! ### The prompt -/

/-- What stands in front of an entry. -/
def prompt (sh : Shell) : Text :=
  sh.line Palette.standard.rule (horizontalRule sh.state.settings.promptRuleChar) ++
    sh.paint Palette.standard.prompt sh.state.settings.prompt

/-- Run an entry; a blank one does nothing. -/
def answer (sh : Shell) (source : Text) : Transcript :=
  if Input.isBlank source then { shell := sh, output := [] } else sh.submit source

/-- Answer the entries of the lines one after the other, until the user asks to leave
or the lines end.  Where a line that cannot be read follows them, an entry that they
do not close fails. -/
def converse (sh : Shell) (broken : Bool) (lines : List Text) : Transcript :=
  if sh.state.running then
    if broken && (Input.closedChunk? lines).isNone then
      { shell := sh, output := sh.prompt, failed := true }
    else
      match h : Input.firstEntry lines with
      | none => { shell := sh, output := sh.prompt }
      | some (source, rest) =>
          have := Input.length_firstEntry_lt h
          let first := sh.answer source
          let others := converse first.shell broken rest
          { others with output := sh.prompt ++ first.output ++ others.output }
  else { shell := sh, output := [] }
termination_by lines.length

/-! ### The command -/

/-- Greet, run the scripts, and talk to the user unless that is not wanted. -/
def session (o : Options) (find : Text → Script) (input : Input) : Transcript :=
  let sh := start o
  let scripts := runScripts find sh o.scripts
  if scripts.failed || o.has .noRepl then
    { scripts with output := sh.greeting ++ scripts.output }
  else
    let talk := scripts.shell.converse input.broken input.lines
    { talk with output := sh.greeting ++ scripts.output ++ talk.output }

/-- The command with the given arguments, files and standard input. -/
def perform (arguments : List Text) (find : Text → Script) (input : Input) : Outcome :=
  match Request.ofArguments arguments with
  | .error _ => ⟨2, []⟩
  | .ok .version => ⟨0, versionLine⟩
  | .ok .help => ⟨0, usage⟩
  | .ok (.run o) =>
      let t := session o find input
      ⟨if t.failed then 1 else 0, t.output⟩

end Shell

end Pizzeria
