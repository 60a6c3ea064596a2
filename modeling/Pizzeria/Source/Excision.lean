import Pizzeria.Source.Cursor
import Pizzeria.Diagnostic

/-!
# Excision

Spans of a text are named by byte offsets.  A span that leaves the text, that
begins behind its end, or that cuts a character in two names nothing, and so do
the operations on it.

## Main Definitions

* `Text.splitAtByte?` — the text in front of an offset and the text behind it.
* `Text.slice?` — the text between two offsets.
* `Text.retained?` — the text without the given spans.
* `Reader` — a cursor over a text, with the spans recorded so far that are to be
  left out.

## Design Notes

`Text.retained?` takes the spans by their beginnings and keeps what lies between
them.  Spans may overlap, and only the offsets at which it really cuts have to lie
between characters.
-/

namespace Pizzeria

/-- The bytes from `start` up to, and not including, `stop`. -/
structure Span where
  start : Nat
  stop : Nat
  deriving DecidableEq, Repr, Inhabited

namespace Text

/-- The text in front of the byte offset `n` and the text behind it; `none` if the
offset lies inside a character or behind the end. -/
def splitAtByte? (n : Nat) : Text → Option (Text × Text)
  | [] => if n = 0 then some ([], []) else none
  | c :: cs =>
      if n = 0 then some ([], c :: cs)
      else if c.utf8Size ≤ n then
        (splitAtByte? (n - c.utf8Size) cs).map fun (front, back) => (c :: front, back)
      else none

/-- The text between two byte offsets. -/
def slice? (text : Text) (start stop : Nat) : Option Text := do
  if stop < start then none
  let (_, back) ← text.splitAtByte? start
  let (front, _) ← back.splitAtByte? (stop - start)
  return front

/-- What spans in order of their beginnings leave of the text behind `reached`. -/
def retainedFrom? (text : Text) (reached : Nat) : List Span → Option Text
  | [] => text.slice? reached text.byteLength
  | span :: spans => do
      let kept ← if reached < span.start then text.slice? reached span.start else some []
      let others ← text.retainedFrom? (max reached span.stop) spans
      return kept ++ others

/-- The text without the given spans. -/
def retained? (text : Text) (spans : List Span) : Option Text :=
  text.retainedFrom? 0 (spans.mergeSort fun a b => a.start ≤ b.start)

end Text

/-- A cursor over a text, and what is to be left out of that text. -/
structure Reader where
  text : Text
  /-- The stage in whose name the text is read. -/
  stage : Stage
  cursor : Cursor
  /-- The spans to leave out, in the order in which they were recorded. -/
  cuts : List Span
  deriving DecidableEq, Repr

namespace Reader

/-- A reader at the beginning of a text. -/
def ofText (text : Text) (stage : Stage) : Reader := ⟨text, stage, .ofText text, []⟩

/-- One character forward. -/
def step (r : Reader) : Reader := { r with cursor := r.cursor.step }

/-- Forward over the characters that satisfy `p`. -/
def skipWhile (p : Char → Bool) (r : Reader) : Reader :=
  { r with cursor := r.cursor.skipWhile p }

/-- Forward to the next character that satisfies `p`.  Without one the reader stops
at the end, and the fault names the place where the search began. -/
def seek (p : Char → Bool) (r : Reader) : Except Diagnostic Unit × Reader :=
  let cursor := r.cursor.seek p
  let found := if cursor.atEnd then .error (.endOfInput r.stage r.cursor.location) else .ok ()
  (found, { r with cursor := cursor })

/-- The text between two byte offsets. -/
def slice? (r : Reader) (start stop : Nat) : Option Text := r.text.slice? start stop

/-- Record a span to leave out; an empty one changes nothing. -/
def cut (r : Reader) (start stop : Nat) : Reader :=
  if start < stop then { r with cuts := r.cuts ++ [⟨start, stop⟩] } else r

/-- The text without the recorded spans. -/
def retained? (r : Reader) : Option Text := r.text.retained? r.cuts

end Reader

end Pizzeria
