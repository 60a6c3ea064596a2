import Pizzeria.Source.Cursor
import Pizzeria.Diagnostic
import Pizzeria.Token.Kind

/-!
# Lexemes

A lexeme is a stretch of source text that stands for one token: its kind, its
place and its characters, not yet decoded.

## Main Definitions

* `Lexeme.next` — the lexeme in front of a cursor, and the cursor behind it.
* `Lexeme.scan` — the lexemes of a text.

## Design Notes

A keyword runs up to white space or a semicolon, and one of the two has to follow
it: a keyword that the text ends with is refused, as is a literal without its
closer.  A character that begins no token is reported together with what follows
it up to the end of the word.
-/

namespace Pizzeria

/-- A stretch of source text that stands for one token. -/
structure Lexeme where
  kind : Token.Kind
  location : Location
  text : Text
  deriving DecidableEq, Repr, Inhabited

namespace Lexeme

/-- Text that begins no token. -/
def unrecognized (location : Location) (text : Text) : Diagnostic where
  kind := .unrecognizedToken
  stage := .tokenization
  location := location
  token := some text
  message := "Unrecognized token " ++ text.quoted

/-- The cursor on the next character that satisfies `p`; without one, the text
ended inside the lexeme in front of `c`. -/
def boundary (p : Char → Bool) (c : Cursor) : Except Diagnostic Cursor :=
  if (c.seek p).atEnd then .error (.endOfInput .tokenization c.location) else .ok (c.seek p)

/-- The kind of the lexeme that begins with `first` in front of the cursor `c`, and
the cursor behind it. -/
def extent (first : Char) (c : Cursor) : Except Diagnostic (Token.Kind × Cursor) :=
  if isLetter first then (boundary endsWord c).map (Token.Kind.keyword, ·)
  else
    match bracket? first with
    | some (closer, kind) => (boundary (· == closer) c).map fun e => (kind, e.step)
    | none =>
        if first = ';' then .ok (.delimiter, c.step)
        else
          (boundary endsWord c).bind fun e => .error (unrecognized c.location (c.upTo e))

/-- The lexeme that begins with `first` in front of the cursor `c`, and the cursor
behind it. -/
def next (first : Char) (c : Cursor) : Except Diagnostic (Lexeme × Cursor) :=
  (extent first c).map fun (kind, e) => (⟨kind, c.location, c.upTo e⟩, e)

/-- Every lexeme leaves less to read.  Scanning comes to an end because of it. -/
theorem length_rest_extent_lt {first : Char} {c e : Cursor} {kind : Token.Kind}
    (nonempty : c.rest ≠ []) (h : extent first c = .ok (kind, e)) :
    e.rest.length < c.rest.length := by
  have moved (p : Char → Bool) {d : Cursor} (hd : boundary p c = .ok d) :
      d.rest.length < c.rest.length := by
    unfold boundary at hd
    split at hd
    · cases hd
    · cases hd
      exact Cursor.length_rest_seek_lt p nonempty
  unfold extent at h
  split at h
  · cases hb : boundary endsWord c with
    | error d => simp [hb, Except.map] at h
    | ok d =>
        simp only [hb, Except.map, Except.ok.injEq, Prod.mk.injEq] at h
        exact h.2 ▸ moved _ hb
  · split at h
    · rename_i closer _ _
      cases hb : boundary (· == closer) c with
      | error d => simp [hb, Except.map] at h
      | ok d =>
          simp only [hb, Except.map, Except.ok.injEq, Prod.mk.injEq] at h
          have shorter := moved _ hb
          rw [← h.2, Cursor.rest_step, List.length_drop]
          omega
    · split at h
      · simp only [Except.ok.injEq, Prod.mk.injEq] at h
        exact h.2 ▸ Cursor.length_rest_step_lt nonempty
      · cases hb : boundary endsWord c <;> simp [hb, Except.bind] at h

theorem length_rest_next_lt {first : Char} {c e : Cursor} {lexeme : Lexeme}
    (nonempty : c.rest ≠ []) (h : next first c = .ok (lexeme, e)) :
    e.rest.length < c.rest.length := by
  unfold next at h
  cases hx : extent first c with
  | error d => simp [hx, Except.map] at h
  | ok ke =>
      simp only [hx, Except.map, Except.ok.injEq, Prod.mk.injEq] at h
      exact h.2 ▸ length_rest_extent_lt nonempty hx

/-- The lexemes in front of a cursor. -/
def scanFrom (c : Cursor) : Except Diagnostic (List Lexeme) :=
  match hc : c.rest with
  | [] => .ok []
  | first :: _ =>
      have nonempty : c.rest ≠ [] := by simp [hc]
      if isSpace first then
        have := Cursor.length_rest_step_lt nonempty
        scanFrom c.step
      else
        match hn : next first c with
        | .error d => .error d
        | .ok (lexeme, e) =>
            have := length_rest_next_lt nonempty hn
            (scanFrom e).map (lexeme :: ·)
termination_by c.rest.length

/-- The lexemes of a text without comments. -/
def scan (text : Text) : Except Diagnostic (List Lexeme) := scanFrom (.ofText text)

end Lexeme

end Pizzeria
