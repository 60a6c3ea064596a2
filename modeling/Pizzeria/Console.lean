import Pizzeria.Text

/-!
# The console

What statements print is not written anywhere at once.  The console keeps it line by
line, each line with its kind and the number of the statement that printed it, until
someone drains it.

## Main Definitions

* `Console.Line`, `Console` — printed lines.
* `Console.print`, `Console.printAll`, `Console.error` — printing.
* `Console.takeLines` — the lines so far, and the console without them.
* `horizontalRule` — the line drawn between outputs.
-/

namespace Pizzeria

/-- The number of characters of a horizontal rule. -/
def ruleWidth : Nat := 30

/-- A horizontal rule drawn with a character. -/
def horizontalRule (c : Char) : Text := List.replicate ruleWidth c

/-- What a line is printed as. -/
inductive Console.Channel where
  | output | error
  deriving DecidableEq, Repr

/-- A printed line. -/
structure Console.Line where
  text : Text
  kind : Console.Channel
  /-- The number of the statement that printed it, from one; zero for none. -/
  statement : Nat
  deriving DecidableEq, Repr

/-- The lines printed so far, and the statement that prints now. -/
structure Console where
  lines : List Console.Line := []
  statement : Nat := 0
  deriving DecidableEq, Repr

namespace Console

/-- The console on which statement number `n` prints from now on. -/
def forStatement (c : Console) (n : Nat) : Console := { c with statement := n }

/-- The console with a text added; a newline in it begins a new line. -/
def push (c : Console) (kind : Channel) (text : Text) : Console :=
  { c with lines := c.lines ++ (Text.split '\n' text).map (⟨·, kind, c.statement⟩) }

/-- The console with a text printed. -/
def print (c : Console) (text : Text) : Console := c.push .output text

/-- The console with several texts printed one after the other. -/
def printAll (c : Console) (texts : List Text) : Console := texts.foldl print c

/-- The console with an error printed. -/
def error (c : Console) (text : Text) : Console := c.push .error text

/-- The texts of the lines. -/
def texts (c : Console) : List Text := c.lines.map Line.text

/-- The lines so far, and the console without them. -/
def takeLines (c : Console) : List Line × Console := (c.lines, { c with lines := [] })

end Console

end Pizzeria
