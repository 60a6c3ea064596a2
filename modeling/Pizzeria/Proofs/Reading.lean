import Pizzeria.Proofs.Layout
import Pizzeria.Proofs.Segments

/-!
# Reading from a place on

A program is read from the beginning of a text, but every step of reading can as well
begin at any location outside literals and comments.  Text that is accepted there is
read independently of what follows it: neither an open comment nor an open literal nor
an open statement is left behind.

## Main Definitions

* `Token.ofSourceFrom`, `Program.ofSourceFrom` — the tokens and the program of a
  source text that begins at a location.

## Main Results

* `Program.ofSource_eq` — a program is read from the start of the text.
* `Program.ofSourceFrom_append` — text that is a program is read in front of other
  text, whatever this comes to.
-/

namespace Pizzeria

/-! ### Tokens -/

namespace Token

/-- The tokens of a source text at a location outside literals and comments. -/
def ofSourceFrom (l : Location) (source : Text) : Except Diagnostic (List Token) := do
  let xs ← Lexeme.ofSourceFrom l source
  ofLexemes xs

theorem ofSourceFrom_layout {gap : Text} (layout : Layout gap) (l : Location) :
    ofSourceFrom l gap = .ok [] := by
  have nothing := Lexeme.ofSourceFrom_layout layout l []
  rw [List.append_nil, Lexeme.ofSourceFrom_nil] at nothing
  rw [ofSourceFrom, nothing]
  rfl

/-- Text from which tokens are read is laid out as their lexemes.  What is known about texts that
are laid out is known about every text that is accepted. -/
theorem laidOut_of_ofSourceFrom {l : Location} {source : Text} {ts : List Token}
    (read : ofSourceFrom l source = .ok ts) :
    ∃ xs, Lexeme.LaidOut l source xs ∧ ofLexemes xs = .ok ts := by
  obtain ⟨xs, read, decoded⟩ := Except.bind_eq_ok_iff.mp read
  have neat := Lexeme.neat_of_ofLexemes read (List.Subset.refl xs) decoded
  exact ⟨xs, Lexeme.laidOut_of_ofSourceFrom read neat, decoded⟩

/-- Text that is laid out is read first, and what follows it as if it stood alone. -/
theorem ofSourceFrom_of_laidOut {l : Location} {source : Text} {xs : List Lexeme}
    {ts : List Token} (laid : Lexeme.LaidOut l source xs) (decoded : ofLexemes xs = .ok ts)
    (rest : Text) :
    ofSourceFrom l (source ++ rest) =
      (ofSourceFrom (l.past source) rest).map (ts ++ ·) := by
  rw [ofSourceFrom, laid.ofSourceFrom_append, ofSourceFrom]
  cases Lexeme.ofSourceFrom (l.past source) rest with
  | error d => rfl
  | ok ys =>
      show ofLexemes (xs ++ ys) = (ofLexemes ys).map (ts ++ ·)
      unfold ofLexemes at decoded ⊢
      rw [List.mapM_append, decoded]
      cases ys.mapM Lexeme.decode <;> rfl

theorem ofSourceFrom_eq_ok {l : Location} {source : Text} {xs : List Lexeme} {ts : List Token}
    (laid : Lexeme.LaidOut l source xs) (decoded : ofLexemes xs = .ok ts) :
    ofSourceFrom l source = .ok ts := by
  have alone := ofSourceFrom_of_laidOut laid decoded []
  rwa [List.append_nil, ofSourceFrom_layout .nil, Except.map, List.append_nil] at alone

/-- Text from which tokens are read is read in front of other text.  It leaves neither a literal
nor a comment open that could reach into it. -/
theorem ofSourceFrom_append {l : Location} {source : Text} {ts : List Token}
    (read : ofSourceFrom l source = .ok ts) (rest : Text) :
    ofSourceFrom l (source ++ rest) =
      (ofSourceFrom (l.past source) rest).map (ts ++ ·) := by
  obtain ⟨xs, laid, decoded⟩ := laidOut_of_ofSourceFrom read
  exact ofSourceFrom_of_laidOut laid decoded rest

end Token

/-! ### Programs -/

namespace Program

/-- The program that a source text at a location means. -/
def ofSourceFrom (g : Grammar) (l : Location) (source : Text) : Except Diagnostic Program := do
  let ts ← Token.ofSourceFrom l source
  ofTokens g ts

theorem ofSourceFrom_layout {gap : Text} (layout : Layout gap) (g : Grammar) (l : Location) :
    ofSourceFrom g l gap = .ok [] := by
  rw [ofSourceFrom, Token.ofSourceFrom_layout layout]
  rfl

/-- Text that is a program is read in front of other text, whatever this comes to.  Its last
statement is closed, so nothing is added to it. -/
theorem ofSourceFrom_append {g : Grammar} {l : Location} {source : Text} {program : Program}
    (read : ofSourceFrom g l source = .ok program) (rest : Text) :
    ofSourceFrom g l (source ++ rest) =
      (ofSourceFrom g (l.past source) rest).map (program ++ ·) := by
  obtain ⟨ts, tokens, meaning⟩ := Except.bind_eq_ok_iff.mp read
  rw [ofSourceFrom, Token.ofSourceFrom_append tokens, ofSourceFrom]
  cases Token.ofSourceFrom (l.past source) rest with
  | error d => rfl
  | ok us => exact ofTokens_append meaning us

/-- Layout behind a program adds nothing to it, as it holds no tokens. -/
theorem ofSourceFrom_append_layout {g : Grammar} {l : Location} {source gap : Text}
    {program : Program} (read : ofSourceFrom g l source = .ok program) (layout : Layout gap) :
    ofSourceFrom g l (source ++ gap) = .ok program := by
  rw [ofSourceFrom_append read, ofSourceFrom_layout layout, Except.map, List.append_nil]

/-- The last line of a text is ended by a newline, if it is not ended already.  The newline is
layout either way. -/
theorem exists_closeLine_eq_append (source : Text) :
    ∃ gap, closeLine source = source ++ gap ∧ Layout gap := by
  unfold closeLine
  split
  · exact ⟨[], (List.append_nil source).symm, .nil⟩
  · exact ⟨['\n'], rfl, .space rfl .nil⟩

/-- A program is read from the start of the text with its last line ended.  Blank text
is no exception: it has no tokens. -/
theorem ofSource_eq (g : Grammar) (source : Text) :
    ofSource g source = ofSourceFrom g .start (closeLine source) := by
  by_cases blank : source.isBlank = true
  · obtain ⟨gap, closed, layout⟩ := exists_closeLine_eq_append source
    have whole : Layout (closeLine source) := closed ▸ (Layout.of_isBlank blank).append layout
    rw [ofSource, if_pos blank, ofSourceFrom_layout whole]
  · rw [ofSource, if_neg blank, ofSourceFrom, Token.ofSourceFrom, Lexeme.ofSourceFrom]
    show uncomment (closeLine source) >>= _ = (uncomment (closeLine source) >>= _) >>= _ >>= _
    cases uncomment (closeLine source) with
    | error d => rfl
    | ok code => rfl

/-- Text that is a program as it stands is a program.  Ending its last line adds layout only. -/
theorem ofSource_of_ofSourceFrom {g : Grammar} {source : Text} {program : Program}
    (read : ofSourceFrom g .start source = .ok program) : ofSource g source = .ok program := by
  obtain ⟨gap, closed, layout⟩ := exists_closeLine_eq_append source
  rw [ofSource_eq, closed]
  exact ofSourceFrom_append_layout read layout

end Program

end Pizzeria
