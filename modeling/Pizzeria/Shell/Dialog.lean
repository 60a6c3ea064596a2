import Pizzeria.Shell.Basic

/-!
# The shell, one event at a time

`Shell.perform` is given all files and all of the standard input at once.  Someone who
sits in front of the shell wants an answer behind every entry, and a script is looked
for when its turn has come.  So this is the same command as a machine: it says what it
waits for, is told what became of that, and writes what there is to write.

## Main Definitions

* `Dialog` — what the shell waits for.
* `Dialog.Event` — what it is told.
* `Dialog.feed` — what it does then.
* `Dialog.start` — the command with the given arguments.
-/

namespace Pizzeria

/-- A shell in the middle of its work, by what it waits for. -/
inductive Dialog where
  /-- The script under a path.  Others come behind it, and then the prompt if the shell
  talks to the user. -/
  | script (sh : Shell) (path : Text) (others : List Text) (talks : Bool)
  /-- A line at the prompt; the entry has earlier ones. -/
  | entry (sh : Shell) (earlier : List Text)
  /-- Nothing. -/
  | over (exitCode : Nat)

namespace Dialog

/-- What became of what the shell waits for. -/
inductive Event where
  | script (found : Script)
  | line (text : Text)
  /-- There is a line, and it cannot be read. -/
  | broken
  /-- The input has ended. -/
  | ended
  deriving DecidableEq, Repr

/-- What was read when the next line of the standard input was asked for: its bytes, with
the newline if it has one, and no bytes at the end of the input. -/
def Event.ofBytes (bytes : List UInt8) : Event :=
  match Input.ofBytes bytes with
  | ⟨_, true⟩ => broken
  | ⟨[], false⟩ => ended
  | ⟨text :: _, false⟩ => line text

/-- What the shell writes, and what it waits for next. -/
structure Turn where
  next : Dialog
  output : Text

/-- The turn with a text in front of what it writes. -/
def Turn.behind (text : Text) (t : Turn) : Turn := { t with output := text ++ t.output }

/-- Go on with the scripts under the paths, and then at the prompt if the shell talks,
unless the user has asked to leave. -/
def resume (talks : Bool) (sh : Shell) (paths : List Text) : Turn :=
  if sh.state.running then
    match paths with
    | path :: others => ⟨.script sh path others talks, []⟩
    | [] => if talks then ⟨.entry sh [], sh.prompt⟩ else ⟨.over 0, []⟩
  else ⟨.over 0, []⟩

/-- Answer the entry of the lines, and go on at the prompt. -/
def reply (sh : Shell) (lines : List Text) : Turn :=
  let answer := sh.answer (Input.unlines lines)
  (resume true answer.shell []).behind answer.output

/-- What the shell does when it is told what became of what it waits for.  Anything else
it lets pass. -/
def feed : Dialog → Event → Turn
  | .script sh path others talks, .script found =>
      let ran := sh.runScript path found
      if ran.failed then ⟨.over 1, ran.output⟩
      else (resume talks ran.shell others).behind ran.output
  | .entry sh earlier, .line text =>
      if Input.closes text then reply sh (earlier ++ [text])
      else ⟨.entry sh (earlier ++ [text]), []⟩
  | .entry _ _, .broken => ⟨.over 1, []⟩
  | .entry sh earlier, .ended =>
      if earlier.isEmpty then ⟨.over 0, []⟩ else reply sh earlier
  | dialog, _ => ⟨dialog, []⟩

/-- The command with the given arguments. -/
def start (arguments : List Text) : Turn :=
  match Request.ofArguments arguments with
  | .error _ => ⟨.over 2, []⟩
  | .ok .version => ⟨.over 0, Shell.versionLine⟩
  | .ok .help => ⟨.over 0, Shell.usage⟩
  | .ok (.run o) =>
      let sh := Shell.start o
      (resume (!o.has .noRepl) sh o.scripts).behind sh.greeting

end Dialog

end Pizzeria
