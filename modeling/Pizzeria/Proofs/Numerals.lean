import Mathlib.Algebra.Group.Int.Defs
import Mathlib.Data.List.TakeWhile
import Pizzeria.Proofs.Words
import Pizzeria.Token.Integer

/-!
# Numerals

What a numeral means, by its digits and their value alone.  Reading counts from left to right,
each digit with the sign of the numeral, and gives up at the first character that is no digit, or
once the value so far is out of range.  The two ways to fail compete, but which of them comes
first can be told from the text: a value that is out of range stays so with more digits, so range
is lost before the first character that is no digit exactly if all the digits in front of it are
out of range together.  A decimal numeral is so read back as the number that it was written for.

## Main Definitions

* `Integer.sign`, `Integer.unsigned` — the sign of a numeral, and what stands behind it.
* `Integer.InRange` — the values of 32 bits with a sign.
* `Integer.Means`, `Integer.Exceeds` — the numeral is a number; it begins with one that is out of
  range.

## Main Results

* `Integer.readDigits_eq` — the outcome of reading digits in closed form.
* `Integer.read_eq_ok_iff`, `Integer.read_eq_range_iff`, `Integer.read_eq_digits_iff` — when a
  numeral is read, when it is out of range, and when it is no numeral.
* `Integer.read_ofInt` — the numeral of an integer is read as that integer.
-/

namespace Pizzeria

namespace Integer

/-! ### Signs and values -/

/-- The factor that the sign of a numeral stands for; a numeral without a sign is positive. -/
def sign (numeral : Text) : Int := if numeral.head? = some '-' then -1 else 1

/-- The numeral behind its sign, if it has one. -/
def unsigned (numeral : Text) : Text :=
  if numeral.head? = some '+' ∨ numeral.head? = some '-' then numeral.tail else numeral

/-- The value of decimal digits, counted with the sign of the numeral. -/
def signedValue (numeral digits : Text) : Int := sign numeral * Nat.ofDigitChars 10 digits 0

/-- The value has 32 bits, one of them for the sign. -/
def InRange (v : Int) : Prop := -2 ^ 31 ≤ v ∧ v ≤ 2 ^ 31 - 1

/-- The numeral consists of digits, at least one, behind an optional sign, and this is their
value. -/
def Means (numeral : Text) (v : Int) : Prop :=
  unsigned numeral ≠ [] ∧ (∀ c ∈ unsigned numeral, c.isDigit = true) ∧
    v = signedValue numeral (unsigned numeral)

/-- The longest run of digits that the numeral has behind its optional sign. -/
def leadingDigits (numeral : Text) : Text := (unsigned numeral).takeWhile Char.isDigit

/-- The numeral begins with digits whose value is out of range, whatever follows them. -/
def Exceeds (numeral : Text) : Prop :=
  leadingDigits numeral ≠ [] ∧ ¬ InRange (signedValue numeral (leadingDigits numeral))

theorem sign_eq (numeral : Text) : sign numeral = 1 ∨ sign numeral = -1 := by
  unfold sign
  split
  · exact Or.inr rfl
  · exact Or.inl rfl

theorem fits_iff {v : Int} : fits v = true ↔ InRange v := by
  have least : (-2 ^ 31 : Int) = -2147483648 := rfl
  have greatest : (2 ^ 31 - 1 : Int) = 2147483647 := rfl
  rw [fits, InRange, least, greatest, Bool.and_eq_true, decide_eq_true_eq, decide_eq_true_eq]

/-! ### Digits -/

theorem digitValue_eq {c : Char} (digit : c.isDigit = true) :
    digitValue c = ((c.toNat - '0'.toNat : Nat) : Int) := by
  have zero : '0'.toNat ≤ c.toNat := of_decide_eq_true (Bool.and_eq_true_iff.mp digit).1
  unfold digitValue
  omega

theorem isSpace_eq_false_of_isDigit {c : Char} (digit : c.isDigit = true) : isSpace c = false := by
  by_contra space
  simp only [isSpace, Bool.not_eq_false, Bool.or_eq_true, beq_iff_eq] at space
  rcases space with (((rfl | rfl) | rfl) | rfl) | rfl <;> exact absurd digit (by decide)

/-- More digits never make a number smaller.  So a value that is out of range stays so with every
digit more. -/
theorem le_ofDigitChars (t : Text) (m : Nat) : m ≤ Nat.ofDigitChars 10 t m := by
  induction t generalizing m with
  | nil => exact Nat.le_refl m
  | cons c t ih =>
      rw [Nat.ofDigitChars_cons]
      have longer := ih (10 * m + (c.toNat - '0'.toNat))
      omega

/-- What is read behind the value `m` with one more digit.  Reading keeps a signed value, and the
library a natural number. -/
theorem mul_add_digitValue (sign : Int) (m : Nat) {c : Char} (digit : c.isDigit = true) :
    sign * m * 10 + sign * digitValue c =
      sign * ((10 * m + (c.toNat - '0'.toNat) : Nat) : Int) := by
  rw [digitValue_eq digit, Int.natCast_add, Int.natCast_mul, Int.mul_add, Int.mul_assoc,
    Int.mul_comm (m : Int)]
  rfl

/-- The values between zero and one in range are in range.  So the digits of a numeral that fits
have all fitted on the way. -/
theorem fits_of_le {sign : Int} (unit : sign = 1 ∨ sign = -1) {k m : Nat} (le : k ≤ m)
    (fit : fits (sign * m) = true) : fits (sign * k) = true := by
  simp only [fits, Bool.and_eq_true, decide_eq_true_eq] at fit ⊢
  rcases unit with rfl | rfl <;> omega

/-- Digits behind a value in range are read up to the first character that is none, or until the
value is out of range.  Which of the two comes first shows in the value of all these digits. -/
theorem readDigits_eq {sign : Int} (unit : sign = 1 ∨ sign = -1) {m : Nat}
    (fit : fits (sign * m) = true) (t : Text) :
    readDigits sign (sign * m) t =
      if fits (sign * Nat.ofDigitChars 10 (t.takeWhile Char.isDigit) m) then
        if t.all Char.isDigit then .ok (sign * Nat.ofDigitChars 10 t m) else .error .digits
      else .error .range := by
  induction t generalizing m with
  | nil =>
      rw [List.takeWhile_nil, Nat.ofDigitChars_nil, if_pos fit]
      rfl
  | cons c t ih =>
      by_cases digit : c.isDigit = true
      · rw [readDigits, if_pos digit, mul_add_digitValue sign m digit,
          List.takeWhile_cons_of_pos digit, Nat.ofDigitChars_cons, Nat.ofDigitChars_cons,
          List.all_cons, digit, Bool.true_and]
        split
        · rename_i longer
          exact ih longer
        · rename_i exceeded
          -- More digits do not bring the value back into range.
          rw [if_neg fun whole => exceeded (fits_of_le unit (le_ofDigitChars _ _) whole)]
      · rw [readDigits, if_neg digit, List.takeWhile_cons_of_neg digit, Nat.ofDigitChars_nil,
          if_pos fit, List.all_cons, if_neg (by simp [digit])]

/-- Reading the digits behind the sign, in closed form: first the range of the leading digits
decides, and then whether all characters are digits. -/
theorem readMagnitude_eq {sign : Int} (unit : sign = 1 ∨ sign = -1) (t : Text) :
    readMagnitude sign t =
      if fits (sign * Nat.ofDigitChars 10 (t.takeWhile Char.isDigit) 0) then
        if t ≠ [] ∧ t.all Char.isDigit = true then .ok (sign * Nat.ofDigitChars 10 t 0)
        else .error .digits
      else .error .range := by
  have zero : sign * ((0 : Nat) : Int) = 0 := Int.mul_zero sign
  have fit : fits (sign * ((0 : Nat) : Int)) = true := by rw [zero]; rfl
  cases t with
  | nil =>
      rw [List.takeWhile_nil, Nat.ofDigitChars_nil, if_pos fit]
      rfl
  | cons c t =>
      have read := readDigits_eq unit fit (c :: t)
      rw [zero] at read
      rw [readMagnitude, read]
      simp

/-! ### Numerals with a sign -/

/-- A numeral is read behind its sign, if it has one. -/
theorem read_eq (numeral : Text) :
    read numeral = (readMagnitude (sign numeral) (unsigned numeral)).map Int32.ofInt := by
  unfold read
  split
  · rfl
  · rfl
  · rename_i plus minus
    have noSign : ¬ (numeral.head? = some '+' ∨ numeral.head? = some '-') := by
      rw [List.head?_eq_some_iff, List.head?_eq_some_iff]
      rintro (⟨digits, rfl⟩ | ⟨digits, rfl⟩)
      · exact plus digits rfl
      · exact minus digits rfl
    rw [sign, unsigned, if_neg noSign, if_neg fun negative => noSign (Or.inr negative)]

theorem read_eq_ite (numeral : Text) :
    read numeral =
      if fits (signedValue numeral (leadingDigits numeral)) then
        if unsigned numeral ≠ [] ∧ (unsigned numeral).all Char.isDigit = true then
          .ok (Int32.ofInt (signedValue numeral (unsigned numeral)))
        else .error .digits
      else .error .range := by
  rw [read_eq, readMagnitude_eq (sign_eq numeral), signedValue, signedValue, leadingDigits]
  split
  · split <;> rfl
  · rfl

/-- A numeral of digits only leads with all of them. -/
theorem leadingDigits_eq {numeral : Text} (digits : ∀ c ∈ unsigned numeral, c.isDigit = true) :
    leadingDigits numeral = unsigned numeral :=
  List.takeWhile_eq_self_iff.mpr digits

theorem toInt_ofInt {v : Int} (inRange : InRange v) : (Int32.ofInt v).toInt = v := by
  obtain ⟨least, greatest⟩ := inRange
  exact Int32.toInt_ofInt_of_le least (Int.lt_of_le_sub_one greatest)

theorem inRange_toInt (n : Int32) : InRange n.toInt :=
  ⟨n.le_toInt, Int.le_sub_one_of_lt n.toInt_lt⟩

/-- A numeral is read if it consists of digits and their value is in range.  The lower bound is
one further from zero than the upper one. -/
theorem read_eq_ok_iff {numeral : Text} {n : Int32} :
    read numeral = .ok n ↔ Means numeral n.toInt := by
  rw [read_eq_ite]
  constructor
  · intro read
    split at read
    · rename_i fit
      split at read
      · rename_i shape
        cases read
        have digits := List.all_eq_true.mp shape.2
        rw [leadingDigits_eq digits, fits_iff] at fit
        exact ⟨shape.1, digits, toInt_ofInt fit⟩
      · cases read
    · cases read
  · rintro ⟨nonempty, digits, value⟩
    have fit : fits (signedValue numeral (leadingDigits numeral)) = true := by
      rw [leadingDigits_eq digits, ← value, fits_iff]
      exact inRange_toInt n
    rw [if_pos fit, if_pos ⟨nonempty, List.all_eq_true.mpr digits⟩, ← value, Int32.ofInt_toInt]

/-- A numeral is out of range if the digits that it begins with are, even if it goes on with what
is no digit. -/
theorem read_eq_range_iff {numeral : Text} :
    read numeral = .error .range ↔ Exceeds numeral := by
  rw [read_eq_ite, Exceeds, ← fits_iff]
  constructor
  · intro read
    split at read
    · split at read <;> cases read
    · rename_i exceeded
      refine ⟨?_, exceeded⟩
      -- Without a digit the value is zero.
      intro none
      rw [none, signedValue, Nat.ofDigitChars_nil] at exceeded
      exact exceeded (by rw [Int.natCast_zero, Int.mul_zero]; rfl)
  · rintro ⟨-, exceeded⟩
    rw [if_neg exceeded]

-- Digits that are out of range win over what follows them.
example : read "-2147483649 x" = .error .range ∧ read "-2147483648 x" = .error .digits :=
  ⟨rfl, rfl⟩

/-- Every other numeral is refused for its digits.  Together with the other two conditions this
leaves no gap and no overlap. -/
theorem read_eq_digits_iff {numeral : Text} :
    read numeral = .error .digits ↔
      (∀ v, Means numeral v → ¬ InRange v) ∧ ¬ Exceeds numeral := by
  constructor
  · intro refused
    refine ⟨?_, fun exceeds => ?_⟩
    · intro v means inRange
      rw [← toInt_ofInt inRange] at means
      cases refused.symm.trans (read_eq_ok_iff.mpr means)
    · cases refused.symm.trans (read_eq_range_iff.mpr exceeds)
  · rintro ⟨unread, notExceeds⟩
    cases outcome : read numeral with
    | ok n => exact absurd (inRange_toInt n) (unread _ (read_eq_ok_iff.mp outcome))
    | error fault =>
        cases fault with
        | digits => rfl
        | range => exact absurd (read_eq_range_iff.mp outcome) notExceeds

/-! ### Written numerals -/

theorem isDigit_of_mem_ofNat {m : Nat} {c : Char} (mem : c ∈ Text.ofNat m) : c.isDigit = true :=
  Nat.isDigit_of_mem_toDigits (by decide) (by decide) mem

/-- Digits alone have no sign, and are their own magnitude. -/
theorem unsigned_of_digits {t : Text} (digits : ∀ c ∈ t, c.isDigit = true) :
    sign t = 1 ∧ unsigned t = t := by
  have first {c : Char} (other : c.isDigit = false) : t.head? ≠ some c := by
    intro head
    cases other.symm.trans (digits c (List.mem_of_head? head))
  have plus : t.head? ≠ some '+' := first rfl
  have minus : t.head? ≠ some '-' := first rfl
  rw [sign, unsigned, if_neg minus, if_neg (not_or.mpr ⟨plus, minus⟩)]
  exact ⟨rfl, rfl⟩

/-- The decimal numeral of an integer means that integer.  So votes that are written into a script
are read back. -/
theorem means_ofInt (n : Int) : Means (Text.ofInt n) n := by
  have digits : ∀ c ∈ Text.ofNat n.natAbs, c.isDigit = true := fun c mem => isDigit_of_mem_ofNat mem
  have value : Nat.ofDigitChars 10 (Text.ofNat n.natAbs) 0 = n.natAbs :=
    Nat.ofDigitChars_ten_toDigits
  unfold Text.ofInt
  split
  · rename_i negative
    refine ⟨Nat.toDigits_ne_nil, digits, ?_⟩
    show n = -1 * (Nat.ofDigitChars 10 (Text.ofNat n.natAbs) 0 : Int)
    rw [value]
    omega
  · obtain ⟨positive, plain⟩ := unsigned_of_digits digits
    rw [Means, signedValue, positive, plain, value]
    exact ⟨Nat.toDigits_ne_nil, digits, by omega⟩

/-- The decimal numeral of an integer is read as that integer, at both ends of the
range too. -/
theorem read_ofInt (n : Int32) : read (Text.ofInt n.toInt) = .ok n :=
  read_eq_ok_iff.mpr (means_ofInt n.toInt)

/-- A numeral consists of digits and a sign.  Neither closes the literal that it is written in. -/
theorem isDigit_or_eq_of_mem_ofInt {n : Int} {c : Char} (mem : c ∈ Text.ofInt n) :
    c.isDigit = true ∨ c = '-' := by
  unfold Text.ofInt at mem
  split at mem
  · rcases List.mem_cons.mp mem with sign | mem
    · exact Or.inr sign
    · exact Or.inl (isDigit_of_mem_ofNat mem)
  · exact Or.inl (isDigit_of_mem_ofNat mem)

theorem trim_ofInt (n : Int) : (Text.ofInt n).trim = Text.ofInt n := by
  apply Text.trim_eq_self
  intro c mem
  rcases isDigit_or_eq_of_mem_ofInt mem with digit | rfl
  · exact isSpace_eq_false_of_isDigit digit
  · rfl

end Integer

end Pizzeria
