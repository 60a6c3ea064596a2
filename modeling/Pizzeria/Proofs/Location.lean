import Mathlib.Data.List.Basic
import Pizzeria.Source.Location

/-!
# Laws of locations

A location behind a text depends on its newlines and on what follows the last of
them.  Reading on never comes back to a location, so a location of a text names at
most one place in it.

## Main Definitions

* `Location.lowered` — the location some lines further down.
* `Text.atLocation?` — the text from a location on.

## Main Results

* `Location.past_lowered` — lines in front of a text lower its locations, nothing
  else.
* `Text.atLocation?_eq_some_iff` — what stands at a location.
-/

namespace Pizzeria

namespace Location

/-- The location that many lines further down, in the same column. -/
def lowered (lines : Nat) (l : Location) : Location := ⟨l.line + lines, l.character⟩

/-! ### Lines and columns -/

@[simp] theorem after_newline (l : Location) : l.after '\n' = ⟨l.line + 1, 1⟩ := rfl

/-- Every character but the newline moves on by one column.  Columns count characters, not
bytes. -/
theorem after_of_ne {c : Char} (h : c ≠ '\n') (l : Location) :
    l.after c = ⟨l.line, l.character + 1⟩ := by
  simp [after, h]

theorem line_past (l : Location) (t : Text) :
    (l.past t).line = l.line + t.count '\n' := by
  induction t generalizing l with
  | nil => rfl
  | cons c t ih =>
      rw [past_cons, ih]
      by_cases h : c = '\n'
      · subst h
        simp only [after_newline, List.count_cons_self]
        omega
      · rw [after_of_ne h, List.count_cons_of_ne h]

/-- Within a line only the column moves.  Words and the openers of literals are on one line, which
is why their places are easily told. -/
theorem past_of_notMem {t : Text} (h : '\n' ∉ t) (l : Location) :
    l.past t = ⟨l.line, l.character + t.length⟩ := by
  induction t generalizing l with
  | nil => rfl
  | cons c t ih =>
      rw [List.mem_cons, not_or] at h
      rw [past_cons, ih h.2, after_of_ne (Ne.symm h.1), List.length_cons]
      show (⟨l.line, l.character + 1 + t.length⟩ : Location) = _
      rw [Nat.add_assoc, Nat.add_comm 1]

/-- Behind a newline the first column begins, whatever was in the line. -/
theorem past_line (l : Location) (t : Text) :
    l.past (t ++ ['\n']) = ⟨l.line + t.count '\n' + 1, 1⟩ := by
  rw [past_append, past_cons, past_nil, after_newline, line_past]

/-- What stands between a location and the end of its line does not matter behind
that line. -/
theorem past_rest_of_line {note : Text} (h : '\n' ∉ note) (l : Location) :
    l.past (note ++ ['\n']) = l.after '\n' := by
  rw [past_line, List.count_eq_zero_of_not_mem h, after_newline, Nat.add_zero]

/-- Reading on never comes back to a location.  So a location names at most one place of a
text. -/
theorem past_ne_self {t : Text} (h : t ≠ []) (l : Location) : l.past t ≠ l := by
  intro same
  by_cases newline : '\n' ∈ t
  · have lower := line_past l t
    have positive := List.count_pos_iff.mpr newline
    rw [same] at lower
    omega
  · rw [past_of_notMem newline] at same
    have moved := congrArg character same
    have positive := List.length_pos_iff.mpr h
    simp only at moved
    omega

/-! ### Lines in front -/

theorem after_lowered (lines : Nat) (l : Location) (c : Char) :
    (l.lowered lines).after c = (l.after c).lowered lines := by
  by_cases h : c = '\n'
  · subst h
    simp only [after_newline, lowered, Location.mk.injEq, and_true]
    omega
  · rw [after_of_ne h, after_of_ne h]
    rfl

/-- Lines in front of a text lower its locations and do nothing else to them.  This compares a
text on its own with the same text further down. -/
theorem past_lowered (lines : Nat) (l : Location) (t : Text) :
    (l.lowered lines).past t = (l.past t).lowered lines := by
  induction t generalizing l with
  | nil => rfl
  | cons c t ih => rw [past_cons, past_cons, after_lowered, ih]

/-- Where the text behind whole lines begins: in the first column, as many lines down. -/
theorem start_past_line (t : Text) :
    start.past (t ++ ['\n']) = start.lowered (t.count '\n' + 1) := by
  rw [past_line]
  rfl

end Location

namespace Text

/-! ### What stands at a location -/

/-- The part of a text from the location `target` on, the text itself being at
`here`. -/
def atLocationFrom? (target here : Location) : Text → Option Text
  | [] => if here = target then some [] else none
  | c :: cs =>
      if here = target then some (c :: cs)
      else atLocationFrom? target (here.after c) cs

/-- The text that stands at a location: everything from there on.  A location that
the text does not reach has none. -/
def atLocation? (text : Text) (target : Location) : Option Text :=
  text.atLocationFrom? target .start

/-- The text behind a beginning stands at the location behind that beginning.  Since no location
comes twice, the search does not stop earlier. -/
theorem atLocationFrom?_past (here : Location) (front rest : Text) :
    (front ++ rest).atLocationFrom? (here.past front) here = some rest := by
  induction front generalizing here with
  | nil => cases rest <;> simp [atLocationFrom?]
  | cons c front ih =>
      have further : here ≠ here.past (c :: front) :=
        (Location.past_ne_self (List.cons_ne_nil c front) here).symm
      rw [List.cons_append, atLocationFrom?, if_neg further]
      exact ih (here.after c)

/-- What is found at a location is the rest behind some beginning that ends there. -/
theorem exists_of_atLocationFrom?_eq_some {target here : Location} {text rest : Text}
    (h : text.atLocationFrom? target here = some rest) :
    ∃ front, text = front ++ rest ∧ here.past front = target := by
  induction text generalizing here with
  | nil =>
      simp only [atLocationFrom?, Option.ite_none_right_eq_some, Option.some.injEq] at h
      exact ⟨[], h.2, h.1⟩
  | cons c text ih =>
      rw [atLocationFrom?] at h
      split at h
      · rename_i reached
        exact ⟨[], Option.some.inj h, reached⟩
      · obtain ⟨front, split, reached⟩ := ih h
        exact ⟨c :: front, by rw [split, List.cons_append], reached⟩

/-- A location names the place behind the one beginning of the text that leads
there. -/
theorem atLocation?_eq_some_iff {text rest : Text} {target : Location} :
    text.atLocation? target = some rest ↔
      ∃ front, text = front ++ rest ∧ Location.start.past front = target := by
  constructor
  · intro h
    exact exists_of_atLocationFrom?_eq_some h
  · rintro ⟨front, rfl, rfl⟩
    exact atLocationFrom?_past .start front rest

end Text

end Pizzeria
