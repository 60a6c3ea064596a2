import Pizzeria.Text

/-!
# Locations

A location is a line and a character in a source text, both counted from one.
A newline belongs to the line it ends.

## Main Definitions

* `Location.after` — the location one character further on.
* `Location.past` — the location after a stretch of text.
-/

namespace Pizzeria

/-- A place in a source text. -/
structure Location where
  line : Nat
  character : Nat
  deriving DecidableEq, Repr, Inhabited

namespace Location

/-- The place of the first character of a text. -/
def start : Location := ⟨1, 1⟩

/-- The place of the character that follows `c`. -/
def after (l : Location) (c : Char) : Location :=
  if c = '\n' then ⟨l.line + 1, 1⟩ else ⟨l.line, l.character + 1⟩

/-- The place of the character that follows the text `t`. -/
def past (l : Location) (t : Text) : Location := t.foldl after l

@[simp] theorem past_nil (l : Location) : l.past [] = l := rfl

@[simp] theorem past_cons (l : Location) (c : Char) (t : Text) :
    l.past (c :: t) = (l.after c).past t := rfl

/-- Reading two texts is reading one and then the other.  Locations can be followed piece by
piece, in whatever pieces a text is cut. -/
theorem past_append (l : Location) (t u : Text) :
    l.past (t ++ u) = (l.past t).past u := by
  simp [past]

/-- The written form, `(line, character)`. -/
def render (l : Location) : Text :=
  "(" ++ Text.ofNat l.line ++ ", " ++ Text.ofNat l.character ++ ")"

end Location

end Pizzeria
