/-!
# Text

Source text, token text and printed text are all lists of characters, so that
scanning is plain recursion on lists and every statement about text is a
statement about lists.  String literals are read as text by a coercion; nothing
else in the library is stored as a `String`.

## Main Definitions

* `Text` — a list of characters.
* `isSpace`, `isLetter`, `isClauseMark`, `endsWord`, `isAscii` — the character
  classes of the language.
* `Text.trim`, `Text.upper`, `Text.interior`, `Text.split`, `Text.join` — the
  operations on words and literals.
* `Text.ofNat`, `Text.ofInt` — decimal numerals.
* `Text.byteLength` — the length in UTF-8 bytes.
-/

namespace Pizzeria

/-- A piece of text: the list of its characters. -/
abbrev Text := List Char

instance : Coe String Text := ⟨String.toList⟩

/-! ### Character classes -/

/-- White space of the language: blank, newline, tab, carriage return and
vertical tab.  The form feed is not among them. -/
def isSpace (c : Char) : Bool :=
  c == ' ' || c == '\n' || c == '\t' || c == '\r' || c == '\x0b'

/-- The letters of the Latin alphabet without diacritics, in either case. -/
def isLetter (c : Char) : Bool := c.isAlpha

/-- Punctuation that structures a pizza literal. -/
def isClauseMark (c : Char) : Bool := c == '{' || c == '}' || c == ','

/-- Where a word of the program ends: at white space or at a semicolon. -/
def endsWord (c : Char) : Bool := isSpace c || c == ';'

/-- The 128 characters of the ASCII repertoire. -/
def isAscii (c : Char) : Bool := c.toNat < 128

namespace Text

/-! ### Words and literals -/

/-- No character other than white space. -/
def isBlank (t : Text) : Bool := t.all isSpace

/-- The text without the white space at its two ends. -/
def trim (t : Text) : Text :=
  ((t.dropWhile isSpace).reverse.dropWhile isSpace).reverse

/-- The text with its ASCII letters in upper case. -/
def upper (t : Text) : Text := t.map Char.toUpper

/-- The text between the first and the last character, whatever these are. -/
def interior (t : Text) : Text := t.tail.dropLast

/-- The parts between the occurrences of `sep`; there is always at least one. -/
abbrev split (sep : Char) (t : Text) : List Text := t.splitOn sep

/-- The parts one after the other, with `sep` between neighbours. -/
def join (sep : Text) (parts : List Text) : Text := List.intercalate sep parts

/-- The text in double quotes. -/
def quoted (t : Text) : Text := '"' :: t ++ ['"']

/-! ### Numerals and bytes -/

/-- The decimal numeral of a natural number. -/
def ofNat (n : Nat) : Text := Nat.toDigits 10 n

/-- The decimal numeral of an integer, with a minus sign for a negative one. -/
def ofInt (n : Int) : Text :=
  if n < 0 then '-' :: ofNat n.natAbs else ofNat n.natAbs

/-- The number of bytes of the UTF-8 form. -/
def byteLength : Text → Nat
  | [] => 0
  | c :: cs => c.utf8Size + byteLength cs

@[simp] theorem byteLength_nil : byteLength [] = 0 := rfl

@[simp] theorem byteLength_cons (c : Char) (t : Text) :
    byteLength (c :: t) = c.utf8Size + byteLength t := rfl

/-- Bytes add up, so the offset behind a text is the sum of what was read. -/
@[simp] theorem byteLength_append (t u : Text) :
    byteLength (t ++ u) = byteLength t + byteLength u := by
  induction t with
  | nil => simp
  | cons c t ih => simp [ih, Nat.add_assoc]

end Text

end Pizzeria
