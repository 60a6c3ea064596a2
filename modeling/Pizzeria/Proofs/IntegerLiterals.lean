import Pizzeria.Proofs.Numerals
import Pizzeria.Token.Decoding

/-!
# Integer literals

What an integer literal is decoded as.  The brackets are dropped unseen, and so is white space
inside them; the rest is a numeral.  The two faults of a numeral are told apart by their messages
alone, so that each outcome of reading shows in one outcome of decoding.

## Main Results

* `Lexeme.integerMessage_injective` — the faults have different messages.
* `Lexeme.decode_integer_eq_ok_iff`, `Lexeme.decode_integer_eq_error_iff` — decoding is reading.
-/

namespace Pizzeria

namespace Lexeme

/-- The two faults of a numeral are told apart by their messages.  So the diagnostic says which it
was. -/
theorem integerMessage_injective (digits : Text) : Function.Injective (integerMessage digits) := by
  intro fault fault' same
  cases fault <;> cases fault'
  · rfl
  · exact absurd (List.append_cancel_left same) (by decide)
  · exact absurd (List.append_cancel_left same) (by decide)
  · rfl

theorem decode_integer_eq_ok_iff {l : Location} {text : Text} {n : Int32} :
    decode ⟨.integer, l, text⟩ = .ok ⟨.integer n, l, text⟩ ↔
      Integer.read text.interior.trim = .ok n := by
  simp only [decode, value]
  cases Integer.read text.interior.trim <;> simp [Except.map]

theorem decode_integer_eq_error_iff {l : Location} {text : Text} {fault : Integer.Fault} :
    decode ⟨.integer, l, text⟩ =
        .error (refusal ⟨.integer, l, text⟩ .invalidInteger
          (integerMessage text.interior fault)) ↔
      Integer.read text.interior.trim = .error fault := by
  simp only [decode, value]
  cases Integer.read text.interior.trim with
  | ok n => simp [Except.map]
  | error found =>
      simp only [Except.map, Except.error.injEq]
      constructor
      · intro same
        exact integerMessage_injective _ (congrArg Diagnostic.message same)
      · rintro rfl
        rfl

/-- **Integer literals are decoded exactly.**  Take the text of an integer literal without its
first and last character and without the white space at both ends.  It is decoded as a number
exactly if it consists of digits, at least one, behind an optional sign, and the number is their
value and in range.  It is refused as out of range exactly if it has digits behind the optional
sign that are out of range already, whatever follows the last of them.  In every other case it is
refused for unrecognized digits.  So every integer between parentheses is decoded as itself. -/
theorem decode_integer_exact (l : Location) :
    (∀ text : Text,
      let x : Lexeme := ⟨.integer, l, text⟩
      let numeral := text.interior.trim
      (∀ v : Int, (∃ n : Int32, x.decode = .ok ⟨.integer n, l, text⟩ ∧ n.toInt = v) ↔
          Integer.Means numeral v ∧ Integer.InRange v) ∧
        (x.decode = .error (x.refusal .invalidInteger
            ("Invalid integer " ++ text.interior.quoted ++
              " - value causes overflow or underflow")) ↔
          Integer.Exceeds numeral) ∧
        (x.decode = .error (x.refusal .invalidInteger
            ("Invalid integer " ++ text.interior.quoted ++ " - unrecognized digit(s)")) ↔
          (∀ v, Integer.Means numeral v → ¬ Integer.InRange v) ∧ ¬ Integer.Exceeds numeral)) ∧
      ∀ n : Int32,
        decode ⟨.integer, l, '(' :: (Text.ofInt n.toInt ++ [')'])⟩ =
          .ok ⟨.integer n, l, '(' :: (Text.ofInt n.toInt ++ [')'])⟩ := by
  refine ⟨fun text => ⟨fun v => ⟨?_, ?_⟩, ?_, ?_⟩, ?_⟩
  · rintro ⟨n, decoded, rfl⟩
    exact ⟨Integer.read_eq_ok_iff.mp (decode_integer_eq_ok_iff.mp decoded),
      Integer.inRange_toInt n⟩
  · rintro ⟨means, inRange⟩
    have value := Integer.toInt_ofInt inRange
    rw [← value] at means
    exact ⟨_, decode_integer_eq_ok_iff.mpr (Integer.read_eq_ok_iff.mpr means), value⟩
  · exact decode_integer_eq_error_iff.trans Integer.read_eq_range_iff
  · exact decode_integer_eq_error_iff.trans Integer.read_eq_digits_iff
  · intro n
    rw [decode_integer_eq_ok_iff, Text.interior_enclosed, Integer.trim_ofInt, Integer.read_ofInt]

end Lexeme

end Pizzeria
