import Pizzeria.Text

/-!
# Input

What the shell reads: scripts as a whole, and the standard input line by line.

## Main Definitions

* `isWhiteSpace` — the Unicode property that blank lines are tested with.
* `Script` — what is found under the path of a script.
* `Input`, `Input.ofBytes` — the lines of the standard input.
* `Input.closes`, `Input.firstEntry` — the lines that make up one entry.

## Design Notes

An entry at the prompt ends with a line that is blank or that ends in a semicolon, and
at the end of the input.  Lines end with a newline; one carriage return in front of it
belongs to the line ending.
-/

namespace Pizzeria

/-- The Unicode property White_Space.  It is wider than the white space of the
language: the form feed and the spaces outside ASCII have it too. -/
def isWhiteSpace (c : Char) : Bool :=
  let n := c.toNat
  (9 ≤ n && n ≤ 13) || n == 0x20 || n == 0x85 || n == 0xa0 || n == 0x1680 ||
    (0x2000 ≤ n && n ≤ 0x200a) || n == 0x2028 || n == 0x2029 || n == 0x202f ||
    n == 0x205f || n == 0x3000

/-- The text that bytes encode in UTF-8. -/
def decodeUtf8? (bytes : List UInt8) : Option Text :=
  (String.fromUTF8? bytes.toByteArray).map String.toList

/-- What is found under the path of a script. -/
inductive Script where
  | missing
  /-- It is there and cannot be read as text. -/
  | unreadable
  | source (text : Text)
  deriving DecidableEq, Repr

/-- The script in a file with the given content. -/
def Script.ofBytes (bytes : List UInt8) : Script :=
  match decodeUtf8? bytes with
  | some text => source text
  | none => unreadable

/-- The lines of the standard input. -/
structure Input where
  /-- The lines that can be read, without their endings. -/
  lines : List Text
  /-- A line that cannot be read follows them. -/
  broken : Bool
  deriving DecidableEq, Repr

namespace Input

/-- The bytes of the lines, without their endings.  `line` holds the bytes of the
current line, last one first. -/
def byteLines (line : List UInt8) : List UInt8 → List (List UInt8)
  | [] => if line.isEmpty then [] else [line.reverse]
  | 10 :: bytes =>
      match line with
      | 13 :: line => line.reverse :: byteLines [] bytes
      | line => line.reverse :: byteLines [] bytes
  | byte :: bytes => byteLines (byte :: line) bytes

/-- The lines up to the first one that is not UTF-8. -/
def ofByteLines : List (List UInt8) → Input
  | [] => ⟨[], false⟩
  | line :: others =>
      match decodeUtf8? line with
      | none => ⟨[], true⟩
      | some text =>
          let rest := ofByteLines others
          ⟨text :: rest.lines, rest.broken⟩

/-- The lines of a standard input with the given content. -/
def ofBytes (bytes : List UInt8) : Input := ofByteLines (byteLines [] bytes)

/-- The text has no character other than Unicode white space. -/
def isBlank (text : Text) : Bool := text.all isWhiteSpace

/-- The line ends an entry: it is blank, or its last visible character is a
semicolon. -/
def closes (line : Text) : Bool :=
  match line.reverse.dropWhile isWhiteSpace with
  | [] => true
  | last :: _ => last == ';'

/-- The lines up to and including the first one that ends an entry, and the rest;
`none` if no line ends one. -/
def closedChunk? : List Text → Option (List Text × List Text)
  | [] => none
  | line :: lines =>
      if closes line then some ([line], lines)
      else (closedChunk? lines).map fun (entry, rest) => (line :: entry, rest)

/-- The lines as one text, a newline behind each. -/
def unlines (lines : List Text) : Text := lines.flatMap (· ++ ['\n'])

/-- The first entry of the lines as one text, and the lines behind it.  At the end of
the lines an entry need not be closed; without lines there is none. -/
def firstEntry (lines : List Text) : Option (Text × List Text) :=
  match lines with
  | [] => none
  | _ :: _ =>
      match closedChunk? lines with
      | some (entry, rest) => some (unlines entry, rest)
      | none => some (unlines lines, [])

/-- An entry takes at least one line. -/
theorem length_closedChunk?_lt {lines entry rest : List Text}
    (h : closedChunk? lines = some (entry, rest)) : rest.length < lines.length := by
  induction lines generalizing entry with
  | nil => cases h
  | cons line lines ih =>
      unfold closedChunk? at h
      split at h
      · cases h
        exact Nat.lt_succ_self _
      · obtain ⟨⟨entry', rest'⟩, found, same⟩ := Option.map_eq_some_iff.mp h
        cases same
        exact Nat.lt_succ_of_lt (ih found)

/-- Taking an entry leaves fewer lines. -/
theorem length_firstEntry_lt {lines rest : List Text} {source : Text}
    (h : firstEntry lines = some (source, rest)) : rest.length < lines.length := by
  unfold firstEntry at h
  split at h
  · cases h
  · split at h
    · rename_i entry remaining found
      cases h
      exact length_closedChunk?_lt found
    · cases h
      exact Nat.succ_pos _

end Input

end Pizzeria
