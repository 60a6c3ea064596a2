import Pizzeria.Diagnostic
import Pizzeria.Token.Kind

/-!
# Comments

A comment begins at a `#` outside every literal and runs to the end of its line.
The newline is not part of it, so what is left of the text keeps its lines, and in
each line its columns.  Only the newline that ends a comment moves: it closes up to
what stood in front of the `#`.

Literals do not nest here: inside a literal only its own closer is looked for.  A
literal that is never closed therefore hides every later `#`.  Nothing is refused for
that here; what becomes of such a text is decided when its tokens are cut and decoded.

## Main Definitions

* `Zone` — what the text around a character is.
* `uncomment` — the text without its comments.
-/

namespace Pizzeria

/-- What the text around a character is. -/
inductive Zone where
  /-- Outside literals and comments. -/
  | code
  /-- Inside a literal that ends with `closer`. -/
  | literal (closer : Char)
  /-- Inside a comment that began at `start`. -/
  | comment (start : Location)
  deriving DecidableEq, Repr

namespace Zone

/-- The zone behind the character `c` at `l`. -/
def after (l : Location) (c : Char) : Zone → Zone
  | code =>
      if c = '#' then comment l
      else
        match bracket? c with
        | some (closer, _) => literal closer
        | none => code
  | literal closer => if c = closer then code else literal closer
  | comment start => if c = '\n' then code else comment start

/-- A character belongs to a comment if it stands in one or begins one.  The
newline that ends a comment does not. -/
def comments (c : Char) : Zone → Bool
  | code => c == '#'
  | literal _ => false
  | comment _ => c != '\n'

end Zone

/-- The rest of a text, from a location and a zone on, without its comments. -/
def uncommentFrom (zone : Zone) (l : Location) : Text → Except Diagnostic Text
  | [] =>
      match zone with
      | .comment start => .error (.endOfInput .preprocessing start)
      | _ => .ok []
  | c :: cs => do
      let rest ← uncommentFrom (zone.after l c) (l.after c) cs
      return if zone.comments c then rest else c :: rest

/-- The text without its comments.  A comment that no newline ends is a fault. -/
def uncomment (text : Text) : Except Diagnostic Text := uncommentFrom .code .start text

end Pizzeria
