import Pizzeria.Proofs.Outcome
import Pizzeria.Proofs.Words
import Pizzeria.Token.Lexeme

/-!
# What scanning accepts

Scanning goes through a text without comments from left to right.  At each place it
skips white space, cuts a lexeme off, or is stuck.  The three cases are told apart
by the text alone, so scanning is described by a relation on texts that mentions
neither cursors nor offsets.

## Main Definitions

* `Lexeme.Cut` — a text is a complete lexeme of a kind, in front of another text.
* `Lexeme.Stuck` — no lexeme can be cut off the front of a text, and why.
* `Lexeme.Scanned` — the outcome of scanning, by the steps that lead to it.
* `Lexeme.weave` — texts with gaps behind them, as the lexemes of a text have.

## Main Results

* `Lexeme.scanFrom_eq_iff` — scanning has the outcomes that `Scanned` describes.
* `Lexeme.Scanned.exists_cut`, `Lexeme.Scanned.exists_stuck` — where lexemes and
  refusals come from.
-/

namespace Pizzeria

/-! ### Moves of a cursor -/

namespace Cursor

/-- Moves of a cursor add up, in characters, in bytes and in lines and columns. -/
theorem drop_drop (c : Cursor) (m n : Nat) : (c.drop m).drop n = c.drop (m + n) := by
  simp only [drop, Cursor.mk.injEq]
  refine ⟨List.drop_drop .., ?_, ?_⟩
  · rw [List.take_add, Text.byteLength_append, Nat.add_assoc]
  · rw [List.take_add, Location.past_append]

theorem rest_drop_length {c : Cursor} {w rest : Text} (h : c.rest = w ++ rest) :
    (c.drop w.length).rest = rest := by
  rw [drop, h, List.drop_left]

theorem location_drop_length {c : Cursor} {w rest : Text} (h : c.rest = w ++ rest) :
    (c.drop w.length).location = c.location.past w := by
  simp only [drop, h, List.take_left]

/-- The text between a cursor and the one behind `w` is `w`.  This is how a lexeme gets its
text. -/
theorem upTo_drop_length {c : Cursor} {w rest : Text} (h : c.rest = w ++ rest) :
    c.upTo (c.drop w.length) = w := by
  rw [upTo, rest_drop_length h, h, List.length_append, Nat.add_sub_cancel, List.take_left]

/-- A search stops in front of the first match behind the first character.  The first character
itself is not looked at: it is the opener, or begins the word. -/
theorem seek_eq_drop {p : Char → Bool} {c : Cursor} {first stop : Char} {w rest : Text}
    (h : c.rest = first :: (w ++ stop :: rest)) (inside : ∀ d ∈ w, p d = false)
    (stops : p stop = true) : c.seek p = c.drop (first :: w).length := by
  have skipped : ∀ d ∈ w, (!p d) = true := fun d mem => by simp [inside d mem]
  have taken : (w ++ stop :: rest).takeWhile (fun d => !p d) = w := by
    rw [List.takeWhile_append_of_pos skipped, List.takeWhile_cons_of_neg (by simp [stops]),
      List.append_nil]
  have left : (w ++ stop :: rest).dropWhile (fun d => !p d) = stop :: rest := by
    rw [List.dropWhile_append_of_pos skipped, List.dropWhile_cons_of_neg (by simp [stops])]
  have whole : c.rest.take (w.length + 1) = first :: w := by simp [h]
  simp only [seek, step, skipWhile, drop, List.length_cons, Cursor.mk.injEq, whole]
  simp [h, taken, left, Nat.add_assoc]

/-- Without a match the search runs to the end of the text, which is how an open word or literal
is noticed. -/
theorem atEnd_seek {p : Char → Bool} {c : Cursor} {first : Char} {w : Text}
    (h : c.rest = first :: w) (inside : ∀ d ∈ w, p d = false) :
    (c.seek p).atEnd = true := by
  have skipped : ∀ d ∈ w, (!p d) = true := fun d mem => by simp [inside d mem]
  rw [atEnd, rest_seek, h, List.drop_one, List.tail_cons, List.isEmpty_iff,
    ← List.append_nil w, List.dropWhile_append_of_pos skipped, List.dropWhile_nil]

end Cursor

namespace Lexeme

/-! ### The front of a text -/

/-- The character begins no token. -/
structure Stray (c : Char) : Prop where
  notSpace : isSpace c = false
  notLetter : isLetter c = false
  notBracket : bracket? c = none
  notDelimiter : c ≠ ';'

/-- The first text is a complete lexeme of the kind when the second one follows. -/
inductive Cut : Token.Kind → Text → Text → Prop where
  /-- A letter and what follows it up to white space or a semicolon. -/
  | word {first stop : Char} {w rest : Text} (letter : isLetter first = true)
      (inside : ∀ c ∈ w, endsWord c = false) (stops : endsWord stop = true) :
      Cut .keyword (first :: w) (stop :: rest)
  /-- An opener and what follows it up to its closer. -/
  | literal {opener closer : Char} {kind : Token.Kind} {body rest : Text}
      (opens : bracket? opener = some (closer, kind)) (inside : closer ∉ body) :
      Cut kind (opener :: (body ++ [closer])) rest
  /-- A semicolon. -/
  | delimiter {rest : Text} : Cut .delimiter [';'] rest

/-- No lexeme can be cut off the front of the text at the location. -/
inductive Stuck (l : Location) : Text → Diagnostic → Prop where
  /-- The text ends inside a word. -/
  | word {first : Char} {w : Text} (letter : isLetter first = true)
      (inside : ∀ c ∈ w, endsWord c = false) :
      Stuck l (first :: w) (.endOfInput .tokenization l)
  /-- The text ends inside a literal. -/
  | literal {opener closer : Char} {kind : Token.Kind} {body : Text}
      (opens : bracket? opener = some (closer, kind)) (inside : closer ∉ body) :
      Stuck l (opener :: body) (.endOfInput .tokenization l)
  /-- A character that begins no token. -/
  | stray {first stop : Char} {w rest : Text} (stray : Stray first)
      (inside : ∀ c ∈ w, endsWord c = false) (stops : endsWord stop = true) :
      Stuck l (first :: (w ++ stop :: rest)) (unrecognized l (first :: w))
  /-- A character that begins no token, in the last word of the text. -/
  | lastStray {first : Char} {w : Text} (stray : Stray first)
      (inside : ∀ c ∈ w, endsWord c = false) :
      Stuck l (first :: w) (.endOfInput .tokenization l)

/-- The four opening characters, each with its closer and its kind.  Literals are always treated
alike, and only here it is said which there are. -/
theorem bracket?_cases {opener closer : Char} {kind : Token.Kind}
    (h : bracket? opener = some (closer, kind)) :
    (opener = '(' ∧ closer = ')' ∧ kind = .integer) ∨
      (opener = '{' ∧ closer = '}' ∧ kind = .element) ∨
      (opener = '[' ∧ closer = ']' ∧ kind = .pizza) ∨
      (opener = '"' ∧ closer = '"' ∧ kind = .string) := by
  unfold bracket? at h
  split at h <;> simp_all [eq_comm]

/-- An opener is in no class of characters that leaves the four openers out, as those of
letters and of white space do. -/
theorem eq_false_of_bracket? {p : Char → Bool} (excludes : ['(', '{', '[', '"'].any p = false)
    {opener closer : Char} {kind : Token.Kind} (opens : bracket? opener = some (closer, kind)) :
    p opener = false := by
  refine Bool.eq_false_iff.mpr (List.any_eq_false.mp excludes opener ?_)
  rcases bracket?_cases opens with ⟨rfl, -⟩ | ⟨rfl, -⟩ | ⟨rfl, -⟩ | ⟨rfl, -⟩ <;> simp

/-- A character of a class that leaves `#` and the openers out begins neither a comment nor a
literal.  Letters, white space and what ends a word are such classes. -/
theorem plain_of_class {p : Char → Bool} (excludes : ['#', '(', '{', '[', '"'].any p = false)
    {c : Char} (among : p c = true) : c ≠ '#' ∧ bracket? c = none := by
  obtain ⟨comment, openers⟩ := Bool.or_eq_false_iff.mp excludes
  constructor
  · rintro rfl
    rw [comment] at among
    exact absurd among Bool.false_ne_true
  · cases opens : bracket? c with
    | none => rfl
    | some pair =>
        rw [eq_false_of_bracket? openers opens] at among
        exact absurd among Bool.false_ne_true

/-- A text has a first match, or none.  Words and literals are told complete from incomplete with
this. -/
theorem exists_first_or_none (p : Char → Bool) (t : Text) :
    (∃ w stop rest, t = w ++ stop :: rest ∧ (∀ c ∈ w, p c = false) ∧ p stop = true) ∨
      ∀ c ∈ t, p c = false := by
  cases found : t.find? p with
  | none =>
      refine Or.inr fun c mem => ?_
      simpa using List.find?_eq_none.mp found c mem
  | some stop =>
      obtain ⟨stops, w, rest, split, inside⟩ := List.find?_eq_some_iff_append.mp found
      exact Or.inl ⟨w, stop, rest, split, fun c mem => by simpa using inside c mem, stops⟩

/-- Every text is empty, begins with white space, begins with a lexeme, or is
stuck. -/
theorem front_cases (l : Location) (t : Text) :
    t = [] ∨ (∃ c rest, t = c :: rest ∧ isSpace c = true) ∨
      (∃ kind w rest, Cut kind w rest ∧ t = w ++ rest) ∨ ∃ d, Stuck l t d := by
  cases t with
  | nil => exact Or.inl rfl
  | cons first t =>
      refine Or.inr ?_
      by_cases space : isSpace first = true
      · exact Or.inl ⟨first, t, rfl, space⟩
      refine Or.inr ?_
      by_cases letter : isLetter first = true
      · rcases exists_first_or_none endsWord t with ⟨w, stop, rest, rfl, inside, stops⟩ | inside
        · exact Or.inl ⟨_, first :: w, stop :: rest, .word letter inside stops, rfl⟩
        · exact Or.inr ⟨_, .word letter inside⟩
      cases opens : bracket? first with
      | some pair =>
          by_cases closed : pair.1 ∈ t
          · obtain ⟨body, rest, rfl, inside⟩ := List.eq_append_cons_of_mem closed
            refine Or.inl ⟨pair.2, first :: (body ++ [pair.1]), rest, .literal opens inside, ?_⟩
            simp
          · exact Or.inr ⟨_, .literal opens closed⟩
      | none =>
          by_cases delimiter : first = ';'
          · subst delimiter
            exact Or.inl ⟨_, _, t, .delimiter, rfl⟩
          have stray : Stray first :=
            ⟨by simpa using space, by simpa using letter, opens, delimiter⟩
          rcases exists_first_or_none endsWord t with ⟨w, stop, rest, rfl, inside, stops⟩ | inside
          · exact Or.inr ⟨_, .stray stray inside stops⟩
          · exact Or.inr ⟨_, .lastStray stray inside⟩

/-! ### One step of scanning -/

/-- The end of a word or literal is in front of the first character that ends it. -/
theorem boundary_eq_ok {p : Char → Bool} {c : Cursor} {first stop : Char} {w rest : Text}
    (h : c.rest = first :: (w ++ stop :: rest)) (inside : ∀ d ∈ w, p d = false)
    (stops : p stop = true) : boundary p c = .ok (c.drop (first :: w).length) := by
  have left : (c.drop (first :: w).length).rest = stop :: rest :=
    Cursor.rest_drop_length (by rw [h, List.cons_append])
  rw [boundary, Cursor.seek_eq_drop h inside stops, if_neg]
  rw [Cursor.atEnd, left]
  exact Bool.false_ne_true

/-- A word or literal without an end is refused at the place where it begins. -/
theorem boundary_eq_error {p : Char → Bool} {c : Cursor} {first : Char} {w : Text}
    (h : c.rest = first :: w) (inside : ∀ d ∈ w, p d = false) :
    boundary p c = .error (.endOfInput .tokenization c.location) := by
  rw [boundary, if_pos (Cursor.atEnd_seek h inside)]

theorem inside_literal {closer : Char} {body : Text} (h : closer ∉ body) :
    ∀ d ∈ body, (d == closer) = false := by
  intro d mem
  simp only [beq_eq_false_iff_ne]
  rintro rfl
  exact h mem

/-- What a lexeme that can be cut off is read as: its kind, its text and the place where it
begins. -/
theorem next_of_cut {kind : Token.Kind} {first : Char} {w rest : Text} {c : Cursor}
    (cut : Cut kind (first :: w) rest) (h : c.rest = first :: w ++ rest) :
    next first c =
      .ok (⟨kind, c.location, first :: w⟩, c.drop (first :: w).length) := by
  have cutOff : extent first c = .ok (kind, c.drop (first :: w).length) := by
    cases cut with
    | word letter inside stops =>
        rw [extent, if_pos letter, boundary_eq_ok (by simpa using h) inside stops]
        rfl
    | @literal _ closer _ body _ opens inside =>
        have split : c.rest = first :: (body ++ closer :: rest) := by simpa using h
        have found := boundary_eq_ok split (inside_literal inside) (by simp)
        rw [extent, if_neg (by simp [eq_false_of_bracket? (p := isLetter) rfl opens])]
        simp only [opens, found, Except.map, Cursor.step, Cursor.drop_drop]
        simp
    | delimiter =>
        rw [extent, if_neg (by decide)]
        rfl
  rw [next, cutOff]
  simp only [Except.map, Cursor.upTo_drop_length h]

/-- What a stuck text is refused with.  The cases are those of `Stuck`, and each names the place
at which the text begins. -/
theorem next_of_stuck {first : Char} {rest : Text} {d : Diagnostic} {c : Cursor}
    (stuck : Stuck c.location (first :: rest) d) (h : c.rest = first :: rest) :
    next first c = .error d := by
  have refused : extent first c = .error d := by
    cases stuck with
    | word letter inside =>
        rw [extent, if_pos letter, boundary_eq_error h inside]
        rfl
    | literal opens inside =>
        rw [extent, if_neg (by simp [eq_false_of_bracket? (p := isLetter) rfl opens])]
        simp only [opens, boundary_eq_error h (inside_literal inside), Except.map]
    | @stray _ stop w tail stray inside stops =>
        have found := boundary_eq_ok h inside stops
        have split : c.rest = (first :: w) ++ stop :: tail := h
        rw [extent, if_neg (by simp [stray.notLetter])]
        simp only [stray.notBracket, if_neg stray.notDelimiter, found, Except.bind,
          Cursor.upTo_drop_length split]
    | lastStray stray inside =>
        rw [extent, if_neg (by simp [stray.notLetter])]
        simp only [stray.notBracket, if_neg stray.notDelimiter,
          boundary_eq_error h inside, Except.bind]
  rw [next, refused]
  rfl

theorem scanFrom_of_nil {c : Cursor} (h : c.rest = []) : scanFrom c = .ok [] := by
  rw [scanFrom]
  split
  · rfl
  · simp_all

theorem scanFrom_of_space {c : Cursor} {first : Char} {rest : Text}
    (h : c.rest = first :: rest) (space : isSpace first = true) :
    scanFrom c = scanFrom c.step := by
  rw [scanFrom]
  split
  · simp_all
  · rename_i other _ same
    obtain ⟨rfl, -⟩ := List.cons.inj (h.symm.trans same)
    rw [if_pos space]

/-- At any other character the next lexeme decides: a refusal ends the scan, and else it goes on
behind the lexeme. -/
theorem scanFrom_of_next {c : Cursor} {first : Char} {rest : Text}
    (h : c.rest = first :: rest) (space : isSpace first = false) :
    scanFrom c =
      match next first c with
      | .error d => .error d
      | .ok (lexeme, e) => (scanFrom e).map (lexeme :: ·) := by
  rw [scanFrom]
  split
  · simp_all
  · rename_i other _ same
    obtain ⟨rfl, -⟩ := List.cons.inj (h.symm.trans same)
    rw [if_neg (by simp [space])]
    split <;> simp_all

/-! ### Whole runs -/

/-- The outcome of scanning a text from a location on: white space is skipped,
lexemes are cut off, and the first place that is stuck refuses the text. -/
inductive Scanned : Location → Text → Except Diagnostic (List Lexeme) → Prop where
  | nil {l : Location} : Scanned l [] (.ok [])
  | space {l : Location} {c : Char} {rest : Text} {r : Except Diagnostic (List Lexeme)}
      (space : isSpace c = true) (tail : Scanned (l.after c) rest r) :
      Scanned l (c :: rest) r
  | cut {l : Location} {kind : Token.Kind} {w rest : Text}
      {r : Except Diagnostic (List Lexeme)} (cut : Cut kind w rest)
      (tail : Scanned (l.past w) rest r) :
      Scanned l (w ++ rest) (r.map (⟨kind, l, w⟩ :: ·))
  | stuck {l : Location} {t : Text} {d : Diagnostic} (stuck : Stuck l t d) :
      Scanned l t (.error d)

/-- A lexeme has a first character, which is not white space.  So scanning always gets ahead. -/
theorem Cut.exists_cons {kind : Token.Kind} {w rest : Text} (cut : Cut kind w rest) :
    ∃ first tail, w = first :: tail ∧ isSpace first = false := by
  cases cut with
  | word letter _ _ => exact ⟨_, _, rfl, isSpace_eq_false_of_isLetter letter⟩
  | literal opens _ => exact ⟨_, _, rfl, eq_false_of_bracket? rfl opens⟩
  | delimiter => exact ⟨_, _, rfl, rfl⟩

/-- A stuck text has a first character that is not white space; at the end of a text scanning is
done and not stuck. -/
theorem Stuck.exists_cons {l : Location} {t : Text} {d : Diagnostic} (stuck : Stuck l t d) :
    ∃ first tail, t = first :: tail ∧ isSpace first = false := by
  cases stuck with
  | word letter _ => exact ⟨_, _, rfl, isSpace_eq_false_of_isLetter letter⟩
  | literal opens _ => exact ⟨_, _, rfl, eq_false_of_bracket? rfl opens⟩
  | stray stray _ _ => exact ⟨_, _, rfl, stray.notSpace⟩
  | lastStray stray _ => exact ⟨_, _, rfl, stray.notSpace⟩

/-- A lexeme that can be cut off is the first of the scan, and the others are those of the
rest. -/
theorem scanFrom_of_cut {kind : Token.Kind} {w rest : Text} {c : Cursor}
    (cut : Cut kind w rest) (h : c.rest = w ++ rest) :
    scanFrom c = (scanFrom (c.drop w.length)).map (⟨kind, c.location, w⟩ :: ·) := by
  obtain ⟨first, tail, rfl, notSpace⟩ := cut.exists_cons
  rw [scanFrom_of_next h notSpace, next_of_cut cut h]

theorem scanFrom_of_stuck {t : Text} {d : Diagnostic} {c : Cursor}
    (stuck : Stuck c.location t d) (h : c.rest = t) : scanFrom c = .error d := by
  obtain ⟨first, tail, rfl, notSpace⟩ := stuck.exists_cons
  rw [scanFrom_of_next h notSpace, next_of_stuck stuck h]

/-- The steps of a run lead to its outcome.  The induction is on the steps, with one lemma for
each kind of step. -/
theorem Scanned.scanFrom_eq {l : Location} {t : Text} {r : Except Diagnostic (List Lexeme)}
    (run : Scanned l t r) (c : Cursor) (rest : c.rest = t) (location : c.location = l) :
    scanFrom c = r := by
  induction run generalizing c with
  | nil => exact scanFrom_of_nil rest
  | @space l first tail r space _ ih =>
      rw [scanFrom_of_space rest space]
      apply ih
      · rw [Cursor.rest_step, rest, List.drop_one, List.tail_cons]
      · simp [Cursor.step, Cursor.drop, rest, location]
  | @cut l kind w tail r cut _ ih =>
      rw [scanFrom_of_cut cut rest, location]
      rw [ih _ (Cursor.rest_drop_length rest) (by rw [Cursor.location_drop_length rest, location])]
  | stuck stuck =>
      subst location
      exact scanFrom_of_stuck stuck rest

/-- Every text has an outcome.  The induction is on the length of what is left to
read, since a cut takes a whole lexeme at once. -/
theorem exists_scanned (l : Location) (t : Text) : ∃ r, Scanned l t r := by
  induction length : t.length using Nat.strongRecOn generalizing l t with
  | _ n ih =>
      rcases front_cases l t with rfl | ⟨c, rest, rfl, space⟩ | ⟨kind, w, rest, cut, rfl⟩ | ⟨d, stuck⟩
      · exact ⟨_, .nil⟩
      · obtain ⟨r, tail⟩ := ih rest.length (by simp [← length]) (l.after c) rest rfl
        exact ⟨r, .space space tail⟩
      · have shorter : rest.length < n := by
          obtain ⟨first, tail, rfl, -⟩ := cut.exists_cons
          rw [← length, List.length_append, List.length_cons]
          omega
        obtain ⟨r, tail⟩ := ih rest.length shorter (l.past w) rest rfl
        exact ⟨_, .cut cut tail⟩
      · exact ⟨_, .stuck stuck⟩

/-- Scanning has the outcomes that its steps lead to, and no others.  The proofs about lexemes use
the steps from here on, and never the recursion. -/
theorem scanFrom_eq_iff {c : Cursor} {r : Except Diagnostic (List Lexeme)} :
    scanFrom c = r ↔ Scanned c.location c.rest r := by
  constructor
  · rintro rfl
    obtain ⟨r, run⟩ := exists_scanned c.location c.rest
    rw [run.scanFrom_eq c rfl rfl]
    exact run
  · intro run
    exact run.scanFrom_eq c rfl rfl

/-- Each lexeme of a run was cut off at the location that it carries, from a text that goes on
behind it as the scanned one does. -/
theorem Scanned.exists_cut {l : Location} {t : Text} {r : Except Diagnostic (List Lexeme)}
    (run : Scanned l t r) {xs : List Lexeme} (accepted : r = .ok xs) {x : Lexeme}
    (mem : x ∈ xs) :
    ∃ front rest, t = front ++ (x.text ++ rest) ∧ x.location = l.past front ∧
      Cut x.kind x.text rest := by
  induction run generalizing xs with
  | nil =>
      cases accepted
      cases mem
  | @space l c _ _ _ _ ih =>
      obtain ⟨front, rest, rfl, place, cut⟩ := ih accepted mem
      exact ⟨c :: front, rest, rfl, place, cut⟩
  | @cut l kind w tail r cut _ ih =>
      obtain ⟨others, outcome, rfl⟩ := Except.map_eq_ok_iff.mp accepted
      rcases List.mem_cons.mp mem with rfl | mem
      · exact ⟨[], tail, rfl, rfl, cut⟩
      · obtain ⟨front, rest, rfl, place, found⟩ := ih outcome mem
        refine ⟨w ++ front, rest, (List.append_assoc ..).symm, ?_, found⟩
        rw [place, Location.past_append]
  | stuck _ => cases accepted

/-- A text that is refused is refused at a place where it is stuck.  What stands in front of that
place does not matter. -/
theorem Scanned.exists_stuck {l : Location} {t : Text} {r : Except Diagnostic (List Lexeme)}
    (run : Scanned l t r) {d : Diagnostic} (refused : r = .error d) :
    ∃ front rest, t = front ++ rest ∧ Stuck (l.past front) rest d := by
  induction run with
  | nil => cases refused
  | @space l c _ _ _ _ ih =>
      obtain ⟨front, rest, rfl, stuck⟩ := ih refused
      exact ⟨c :: front, rest, rfl, stuck⟩
  | @cut l kind w tail r _ _ ih =>
      obtain ⟨front, rest, rfl, stuck⟩ := ih (Except.map_eq_error_iff.mp refused)
      refine ⟨w ++ front, rest, (List.append_assoc ..).symm, ?_⟩
      rw [Location.past_append]
      exact stuck
  | @stuck l t _ stuck =>
      cases refused
      exact ⟨[], t, rfl, stuck⟩

/-! ### Texts with gaps -/

/-- Texts, each with the text behind it, one pair after the other. -/
def weave (parts : List (Text × Text)) : Text := parts.flatMap fun part => part.1 ++ part.2

/-- The first text, its gap, and then the others; the form in which scanning and layout take texts
apart. -/
theorem weave_cons (w gap : Text) (parts : List (Text × Text)) :
    weave ((w, gap) :: parts) = w ++ (gap ++ weave parts) := by
  rw [weave, List.flatMap_cons, List.append_assoc]
  rfl

end Lexeme

end Pizzeria
