import Pizzeria.Text

/-!
# Integer literals

Integers have 32 bits and a sign.  The digits are read from left to right, and
reading stops at the first character that is no digit, or as soon as the value
read so far does not fit; what follows the stop is not looked at.

## Main Definitions

* `Integer.read` — the integer that a numeral means.
-/

namespace Pizzeria.Integer

/-- Why a numeral means no integer. -/
inductive Fault where
  /-- A character is no digit, or there is none. -/
  | digits
  /-- The value does not fit into 32 bits. -/
  | range
  deriving DecidableEq, Repr

/-- The value fits into 32 bits with a sign. -/
def fits (n : Int) : Bool := -2147483648 ≤ n && n ≤ 2147483647

/-- The value of an ASCII digit. -/
def digitValue (c : Char) : Int := c.toNat - '0'.toNat

/-- The value `acc` followed by the digits of a text, each of them counted with the
given sign. -/
def readDigits (sign : Int) (acc : Int) : Text → Except Fault Int
  | [] => .ok acc
  | c :: cs =>
      if c.isDigit then
        if fits (acc * 10 + sign * digitValue c) then
          readDigits sign (acc * 10 + sign * digitValue c) cs
        else .error .range
      else .error .digits

/-- The value of at least one digit. -/
def readMagnitude (sign : Int) : Text → Except Fault Int
  | [] => .error .digits
  | c :: cs => readDigits sign 0 (c :: cs)

/-- The integer that a numeral with an optional sign means. -/
def read (numeral : Text) : Except Fault Int32 :=
  Except.map Int32.ofInt <|
    match numeral with
    | '+' :: digits => readMagnitude 1 digits
    | '-' :: digits => readMagnitude (-1) digits
    | digits => readMagnitude 1 digits

end Pizzeria.Integer
