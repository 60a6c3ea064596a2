import Pizzeria.Console

/-!
# Colours

The shell paints what it writes with 24-bit foreground colours.  A painted text is
framed by the control sequences that set and reset the colour, also when it is empty.

## Main Definitions

* `Color`, `Color.paint` — a colour, and a text in it.
* `Palette`, `Palette.standard` — the colours by their use.
-/

namespace Pizzeria

/-- A colour by its red, green and blue parts. -/
structure Color where
  red : Nat
  green : Nat
  blue : Nat
  deriving DecidableEq, Repr

/-- The text in a colour. -/
def Color.paint (c : Color) (text : Text) : Text :=
  "\x1b[38;2;" ++ Text.ofNat c.red ++ ";" ++ Text.ofNat c.green ++ ";" ++
    Text.ofNat c.blue ++ "m" ++ text ++ "\x1b[39m"

/-- The colours by their use. -/
structure Palette where
  banner : Color
  prompt : Color
  rule : Color
  output : Color
  /-- A statement failed. -/
  failure : Color
  /-- A source text was refused. -/
  diagnostic : Color
  /-- The grammar is at fault. -/
  internal : Color
  notice : Color
  deriving DecidableEq, Repr

namespace Palette

/-- The colours of the shell. -/
def standard : Palette where
  banner := ⟨250, 179, 135⟩
  prompt := ⟨137, 180, 250⟩
  rule := ⟨108, 112, 134⟩
  output := ⟨205, 214, 244⟩
  failure := ⟨243, 139, 168⟩
  diagnostic := ⟨249, 226, 175⟩
  internal := ⟨245, 194, 231⟩
  notice := ⟨148, 226, 213⟩

/-- The colour of a printed line of a kind. -/
def line (p : Palette) : Console.Channel → Color
  | .output => p.output
  | .error => p.failure

end Palette

end Pizzeria
