import Pizzeria.Proofs.Boundaries

/-!
# Searches

A search moves one character forward before it looks, so a match in front of the reader does
not count.  It ends on the first match behind that, or at the end of the text with a fault that
names the place where it began.

`Reader.seek` gives the end of a search in closed form.  Here the search is also gone through
turn by turn, a step and a look at a time, with a limit on the turns.  It takes one turn for
each character that it passes, and one at the end of the text.  So a limit that exceeds what is
left to read is never reached, and the search ends as the closed form says.

## Main Definitions

* `Reader.look` — what a search makes of the character in front of the reader.
* `Reader.search?` — a search within a number of turns.

## Main Results

* `Reader.searchFrom?_eq_some_iff` — which searches end within a number of turns, and how.
* `Reader.seek_of_first`, `Reader.seek_of_none` — the two ends of a search.
* `Reader.seek_exact` — a search ends, and finds exactly the next match.
-/

namespace Pizzeria

/-! ### Cursors -/

namespace Cursor

theorem rest_ne_nil_of_current {c : Cursor} {ch : Char} (next : c.current = some ch) :
    c.rest ≠ [] := by
  obtain ⟨rest, left⟩ := List.head?_eq_some_iff.mp next
  exact left ▸ List.cons_ne_nil ch rest

/-- A search ends behind the first character if it does not miss there: at a match, or at the end
of the text. -/
theorem seek_eq_step {p : Char → Bool} {c : Cursor} (stops : ∀ ch ∈ c.step.current, p ch = true) :
    c.seek p = c.step := by
  refine skipWhile_of_not_current fun ch next => ?_
  rw [stops ch next]
  rfl

/-- A search that misses behind the first character goes on from there.  With `seek_eq_step` this
is the loop of searching. -/
theorem seek_eq_seek_step {p : Char → Bool} {c : Cursor} {ch : Char}
    (next : c.step.current = some ch) (misses : p ch = false) : c.seek p = c.step.seek p := by
  refine skipWhile_of_current next ?_
  rw [misses]
  rfl

theorem drop_of_length_le {c : Cursor} {n : Nat} (le : c.rest.length ≤ n) :
    c.drop n = c.drop c.rest.length := by
  rw [drop, drop, List.take_of_length_le le, List.drop_of_length_le le, List.take_length,
    List.drop_length]

/-- A search without a match goes to the end, and not beyond it. -/
theorem seek_eq_drop_length {p : Char → Bool} {c : Cursor}
    (misses : ∀ ch ∈ c.rest.tail, p ch = false) : c.seek p = c.drop c.rest.length := by
  have skipped : (c.step.rest.takeWhile fun ch => !p ch) = c.step.rest := by
    refine List.takeWhile_eq_self_iff.mpr fun ch mem => ?_
    rw [rest_step, List.drop_one] at mem
    rw [misses ch mem]
    rfl
  have reached : c.rest.length ≤ 1 + c.step.rest.length := by
    rw [rest_step, List.length_drop]
    omega
  rw [seek, skipWhile_eq_drop, skipped, step, drop_drop]
  exact drop_of_length_le reached

end Cursor

/-- A match behind the first character can be told as the first one, with no match in front of
it. -/
theorem Text.exists_first_of_tail {p : Char → Bool} {t : Text} (hit : ∃ ch ∈ t.tail, p ch = true) :
    ∃ first passed stop rest, t = first :: (passed ++ stop :: rest) ∧
      (∀ ch ∈ passed, p ch = false) ∧ p stop = true := by
  obtain ⟨ch, mem, hit⟩ := hit
  cases t with
  | nil => cases mem
  | cons first t =>
      rcases Lexeme.exists_first_or_none p t with ⟨passed, stop, rest, rfl, misses⟩ | none
      · exact ⟨first, passed, stop, rest, rfl, misses⟩
      · exact absurd hit (by simp [none ch mem])

/-! ### Turn by turn -/

namespace Reader

/-- What a search that began at `start` makes of the character in front of the reader.  It goes
on from one that is no match. -/
def look (p : Char → Bool) (start : Location) (r : Reader) : Option (Except Diagnostic Unit) :=
  match r.cursor.current with
  | none => some (.error (.endOfInput r.stage start))
  | some ch => if p ch then some (.ok ()) else none

/-- A search that began at `start`, turn by turn: a step, then a look.  There is no answer if it
has not ended after `n` turns. -/
def searchFrom? (p : Char → Bool) (start : Location) :
    Nat → Reader → Option (Except Diagnostic Unit × Reader)
  | 0, _ => none
  | n + 1, r =>
      match r.step.look p start with
      | some verdict => some (verdict, r.step)
      | none => searchFrom? p start n r.step

/-- A search within `n` turns. -/
def search? (p : Char → Bool) (n : Nat) (r : Reader) : Option (Except Diagnostic Unit × Reader) :=
  searchFrom? p r.cursor.location n r

/-- How a search ends that began at `start` and has come to the reader without a match. -/
def ending (p : Char → Bool) (start : Location) (r : Reader) : Except Diagnostic Unit × Reader :=
  (if (r.cursor.seek p).atEnd then .error (.endOfInput r.stage start) else .ok (),
    { r with cursor := r.cursor.seek p })

theorem seek_eq_ending (p : Char → Bool) (r : Reader) : r.seek p = r.ending p r.cursor.location :=
  rfl

/-- The turn in which a search ends.  It has looked at the next character, and found a match or
nothing. -/
theorem ending_of_look {p : Char → Bool} {start : Location} {r : Reader}
    {verdict : Except Diagnostic Unit} (ends : r.step.look p start = some verdict) :
    r.ending p start = (verdict, r.step) := by
  unfold look at ends
  split at ends
  · rename_i last
    cases ends
    have reached : r.cursor.seek p = r.cursor.step :=
      Cursor.seek_eq_step fun ch next => absurd (last.symm.trans next) (by simp)
    have atEnd : r.cursor.step.atEnd = true :=
      List.isEmpty_iff.mpr (List.head?_eq_none_iff.mp last)
    rw [ending, reached, if_pos atEnd]
    rfl
  · rename_i ch next
    split at ends
    · rename_i hit
      cases ends
      have reached : r.cursor.seek p = r.cursor.step :=
        Cursor.seek_eq_step fun d next' => Option.some.inj (next.symm.trans next') ▸ hit
      have ahead : ¬ r.cursor.step.atEnd = true := by
        have left : r.cursor.step.rest ≠ [] := Cursor.rest_ne_nil_of_current next
        rw [Cursor.atEnd, List.isEmpty_iff]
        exact left
      rw [ending, reached, if_neg ahead]
      rfl
    · cases ends

/-- A turn after which a search goes on.  The place where it began is carried along, for the fault
that it may end with. -/
theorem ending_of_look_none {p : Char → Bool} {start : Location} {r : Reader}
    (goesOn : r.step.look p start = none) :
    r.ending p start = r.step.ending p start ∧ r.cursor.seek p = r.cursor.step.seek p ∧
      r.cursor.step.rest ≠ [] := by
  unfold look at goesOn
  split at goesOn
  · cases goesOn
  · rename_i ch next
    split at goesOn
    · cases goesOn
    · rename_i misses
      have reached : r.cursor.seek p = r.cursor.step.seek p :=
        Cursor.seek_eq_seek_step next (Bool.eq_false_iff.mpr misses)
      refine ⟨?_, reached, ?_⟩
      · rw [ending, reached]
        rfl
      · exact Cursor.rest_ne_nil_of_current next

/-- A search ends within as many turns as it passes characters, at the end of the text within
one, and not sooner.  The induction is on the turns; what is left to read falls by one in each
turn after which the search goes on. -/
theorem searchFrom?_eq_some_iff {p : Char → Bool} {start : Location} {n : Nat} {r : Reader}
    {outcome : Except Diagnostic Unit × Reader} :
    searchFrom? p start n r = some outcome ↔
      outcome = r.ending p start ∧ 0 < n ∧
        r.cursor.rest.length ≤ n + (r.cursor.seek p).rest.length := by
  induction n generalizing r with
  | zero => simp [searchFrom?]
  | succ n ih =>
      have stepped : r.cursor.step.rest.length = r.cursor.rest.length - 1 := by
        rw [Cursor.rest_step, List.length_drop]
      rw [searchFrom?]
      cases looked : r.step.look p start with
      | some verdict =>
          have ended := ending_of_look looked
          have reached : r.cursor.seek p = r.cursor.step :=
            congrArg (fun outcome => outcome.2.cursor) ended
          rw [ended, reached, Option.some.injEq, eq_comm]
          refine (and_iff_left ⟨Nat.succ_pos n, ?_⟩).symm
          omega
      | none =>
          obtain ⟨ended, reached, ahead⟩ := ending_of_look_none looked
          -- There is a character to pass behind this turn, so one turn is not enough.
          have left := Cursor.length_rest_seek_lt p ahead
          show searchFrom? p start n r.step = some outcome ↔ _
          rw [ih, ended, reached]
          refine and_congr_right fun _ => ?_
          show 0 < n ∧ r.cursor.step.rest.length ≤ n + (r.cursor.step.seek p).rest.length ↔ _
          omega

/-! ### The next match -/

/-- A search stops on the first match behind the first character.  The character that it started
on may itself be a match, and does not count. -/
theorem seek_of_first {p : Char → Bool} {r : Reader} {first stop : Char} {passed rest : Text}
    (h : r.cursor.rest = first :: (passed ++ stop :: rest)) (misses : ∀ ch ∈ passed, p ch = false)
    (stops : p stop = true) :
    r.seek p = (.ok (), { r with cursor := r.cursor.drop (first :: passed).length }) := by
  have left : (r.cursor.drop (first :: passed).length).rest = stop :: rest :=
    Cursor.rest_drop_length (by rw [h, List.cons_append])
  have ahead : ¬ (r.cursor.drop (first :: passed).length).atEnd = true := by
    rw [Cursor.atEnd, left]
    exact Bool.false_ne_true
  rw [seek_eq_ending, ending, Cursor.seek_eq_drop h misses stops, if_neg ahead]

/-- A search without a match stops at the end, and its fault names the place where it began.  The
end itself would be of no use to the reader of a report. -/
theorem seek_of_none {p : Char → Bool} {r : Reader}
    (misses : ∀ ch ∈ r.cursor.rest.tail, p ch = false) :
    r.seek p = (.error (.endOfInput r.stage r.cursor.location),
      { r with cursor := r.cursor.drop r.cursor.rest.length }) := by
  have atEnd : (r.cursor.drop r.cursor.rest.length).atEnd = true :=
    List.isEmpty_iff.mpr List.drop_length
  rw [seek_eq_ending, ending, Cursor.seek_eq_drop_length misses, if_pos atEnd]

/-- **A search finds exactly the next match.**  From every place in a text and for every
condition it ends, turn by turn, within one turn more than there are characters to read.  It
succeeds if and only if a character behind the one in front of the reader is a match, and then
the reader stands on the first of these.  Otherwise the reader stands at the end of the text,
and the fault names its stage and the place where it stood before.  Nothing else about it has
changed. -/
theorem seek_exact {front : Text} {r : Reader} (behind : r.cursor.Behind r.text front)
    (p : Char → Bool) :
    (∀ n, r.cursor.rest.length < n → r.search? p n = some (r.seek p)) ∧
      (∀ n outcome, r.search? p n = some outcome → outcome = r.seek p) ∧
      ((r.seek p).1 = .ok () ↔ ∃ ch ∈ r.cursor.rest.tail, p ch = true) ∧
      ((r.seek p).1 = .ok () → ∃ first passed stop rest,
        r.cursor.rest = first :: (passed ++ stop :: rest) ∧ (∀ ch ∈ passed, p ch = false) ∧
          p stop = true ∧ (r.seek p).2.cursor.rest = stop :: rest ∧
          (r.seek p).2.cursor.Behind r.text (front ++ first :: passed)) ∧
      ((r.seek p).1 ≠ .ok () →
        (r.seek p).1 = .error (.endOfInput r.stage r.cursor.location) ∧
          (r.seek p).2.cursor.rest = [] ∧ (r.seek p).2.cursor.Behind r.text r.text) ∧
      (r.seek p).2.cuts = r.cuts ∧ (r.seek p).2.text = r.text ∧ (r.seek p).2.stage = r.stage := by
  have ends : ∀ n, r.cursor.rest.length < n → r.search? p n = some (r.seek p) := by
    intro n within
    exact searchFrom?_eq_some_iff.mpr ⟨seek_eq_ending p r, by omega, by omega⟩
  have only : ∀ n outcome, r.search? p n = some outcome → outcome = r.seek p :=
    fun _ _ ended => (searchFrom?_eq_some_iff.mp ended).1
  refine ⟨ends, only, ?_⟩
  by_cases hit : ∃ ch ∈ r.cursor.rest.tail, p ch = true
  · obtain ⟨first, passed, stop, rest, h, misses, stops⟩ := Text.exists_first_of_tail hit
    have reached := behind.drop (first :: passed).length
    have whole : r.cursor.rest = first :: passed ++ stop :: rest := h
    have read : r.cursor.rest.take (first :: passed).length = first :: passed := by
      rw [whole, List.take_left]
    rw [read] at reached
    rw [seek_of_first h misses stops]
    exact ⟨iff_of_true rfl hit,
      fun _ => ⟨first, passed, stop, rest, h, misses, stops, Cursor.rest_drop_length whole, reached⟩,
      fun failed => absurd rfl failed, rfl, rfl, rfl⟩
  · have misses : ∀ ch ∈ r.cursor.rest.tail, p ch = false :=
      fun ch mem => Bool.eq_false_iff.mpr fun matching => hit ⟨ch, mem, matching⟩
    have reached := behind.drop r.cursor.rest.length
    rw [List.take_length, ← behind.text_eq] at reached
    have failed : (r.seek p).1 ≠ .ok () := by
      intro found
      rw [seek_of_none misses] at found
      cases found
    refine ⟨iff_of_false failed hit, fun found => absurd found failed, fun _ => ?_, rfl, rfl, rfl⟩
    rw [seek_of_none misses]
    exact ⟨rfl, List.drop_length, reached⟩

/-- A quote that stands on its own, behind a cut: the search from it passes it over and finds no
other, in a text whose last character takes two bytes. -/
theorem seek_exact_on_match :
    let r := (ofText ['\n', '"', 'a', 'é'] .tokenization).step.cut 0 1
    r.cursor.Behind r.text ['\n'] ∧ r.cursor.current = some '"' ∧
      (r.seek (· == '"')).1 = .error (.endOfInput .tokenization ⟨2, 1⟩) ∧
      (r.seek (· == '"')).2.cursor.Behind r.text r.text ∧
      (r.seek (· == '"')).2.cuts = [⟨0, 1⟩] ∧
      r.search? (· == '"') 4 = some (r.seek (· == '"')) := by
  intro r
  have behind : r.cursor.Behind r.text ['\n'] := (Cursor.behind_ofText _).drop 1
  obtain ⟨ends, -, succeeds, -, fails, cuts, -, -⟩ := seek_exact behind (· == '"')
  have failed : (r.seek (· == '"')).1 ≠ .ok () := by
    intro found
    obtain ⟨ch, mem, hit⟩ := succeeds.mp found
    obtain rfl : ch = '"' := beq_iff_eq.mp hit
    have other : '"' ∈ ['a', 'é'] := mem
    exact absurd other (by decide)
  obtain ⟨fault, -, reached⟩ := fails failed
  exact ⟨behind, rfl, fault, reached, cuts, ends 4 (by decide)⟩

end Reader

end Pizzeria
