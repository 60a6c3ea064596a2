import Pizzeria.Source.Location

/-!
# Cursors

A cursor stands in front of the text that is still to be read.  It counts the
bytes and keeps the location of what lies behind it, so that a place can be named
without going through the text again.

## Main Definitions

* `Cursor.ofText` — the cursor at the beginning of a text.
* `Cursor.step`, `Cursor.skipWhile`, `Cursor.seek` — the three moves.
* `Cursor.upTo` — the text between a cursor and a later one.

## Design Notes

`seek` moves at least one character before it looks for a match, so a cursor that
already stands on a match finds the next one.  Where no match is left it stops at
the end of the text; whether that is a fault is for the caller to say.
-/

namespace Pizzeria

/-- A place in a text together with what follows it. -/
structure Cursor where
  /-- The text that is still to be read. -/
  rest : Text
  /-- The number of bytes already read. -/
  offset : Nat
  /-- The place of the next character. -/
  location : Location
  deriving DecidableEq, Repr, Inhabited

namespace Cursor

/-- The cursor at the beginning of a text. -/
def ofText (text : Text) : Cursor := ⟨text, 0, .start⟩

/-- The character in front of the cursor. -/
def current (c : Cursor) : Option Char := c.rest.head?

/-- Nothing is left to read. -/
def atEnd (c : Cursor) : Bool := c.rest.isEmpty

/-- The offset behind the character in front of the cursor. -/
def nextOffset (c : Cursor) : Nat := c.offset + Text.byteLength (c.rest.take 1)

/-- The cursor behind the first `n` characters in front of it. -/
def drop (n : Nat) (c : Cursor) : Cursor where
  rest := c.rest.drop n
  offset := c.offset + Text.byteLength (c.rest.take n)
  location := c.location.past (c.rest.take n)

/-- One character forward; at the end, nowhere. -/
def step (c : Cursor) : Cursor := c.drop 1

/-- Forward over the characters that satisfy `p`. -/
def skipWhile (p : Char → Bool) (c : Cursor) : Cursor where
  rest := c.rest.dropWhile p
  offset := c.offset + Text.byteLength (c.rest.takeWhile p)
  location := c.location.past (c.rest.takeWhile p)

/-- Forward to the next character that satisfies `p`, the one in front of the
cursor not counted, or to the end. -/
def seek (p : Char → Bool) (c : Cursor) : Cursor := c.step.skipWhile fun ch => !p ch

/-- The text between a cursor and a later one on the same text. -/
def upTo (c later : Cursor) : Text := c.rest.take (c.rest.length - later.rest.length)

@[simp] theorem rest_step (c : Cursor) : c.step.rest = c.rest.drop 1 := rfl

@[simp] theorem rest_seek (p : Char → Bool) (c : Cursor) :
    (c.seek p).rest = (c.rest.drop 1).dropWhile fun ch => !p ch := rfl

/-- A step in front of a character leaves less to read.  Loops that go on by steps come to an end
because of it. -/
theorem length_rest_step_lt {c : Cursor} (h : c.rest ≠ []) :
    c.step.rest.length < c.rest.length := by
  have positive := List.length_pos_iff.mpr h
  rw [rest_step, List.length_drop]
  omega

/-- A search that starts in front of a character leaves less to read, even if it finds a match at
once. -/
theorem length_rest_seek_lt (p : Char → Bool) {c : Cursor} (h : c.rest ≠ []) :
    (c.seek p).rest.length < c.rest.length := by
  have shorter := (List.dropWhile_suffix (l := c.rest.drop 1) fun ch => !p ch).length_le
  have positive := List.length_pos_iff.mpr h
  rw [List.length_drop] at shorter
  rw [rest_seek]
  omega

end Cursor

end Pizzeria
