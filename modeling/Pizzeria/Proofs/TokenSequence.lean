import Pizzeria.Proofs.Scanning

/-!
# Texts that are sequences of tokens

Which texts are cut into lexemes, said without cutting: white space, and then tokens, each
with white space behind it.  A token is a word, a literal or a semicolon.  Only a word needs
something behind it, white space or a semicolon, since else it would go on.

A text that is no such sequence is one up to a place at which no token can be completed,
and that is the place that its refusal names.

## Main Definitions

* `Lexeme.Shape` — a text is a token of a kind.
* `Lexeme.Sequence`, `Lexeme.Tokens` — tokens with white space between them, and the texts
  that are made of them.
* `Lexeme.Blocked` — no token can be completed at the front of a text.

## Main Results

* `Lexeme.cut_iff` — a token that is followed by what it needs is cut off, and nothing else.
* `Lexeme.Scanned.exists_sequence` — every run goes through a sequence of tokens, to the end
  of the text or to a place where it is stuck.
* `Lexeme.Sequence.scanned` — a sequence of tokens is gone through token by token.
-/

namespace Pizzeria

namespace Lexeme

/-! ### Tokens -/

/-- The text is a token of the kind. -/
inductive Shape : Token.Kind → Text → Prop where
  /-- A letter, and characters that are neither white space nor semicolons. -/
  | word {first : Char} {w : Text} (letter : isLetter first = true)
      (inside : ∀ c ∈ w, isSpace c = false ∧ c ≠ ';') : Shape .keyword (first :: w)
  /-- An opener, characters other than its closer, and the closer. -/
  | literal {opener closer : Char} {kind : Token.Kind} {body : Text}
      (opens : bracket? opener = some (closer, kind)) (inside : closer ∉ body) :
      Shape kind (opener :: (body ++ [closer]))
  | delimiter : Shape .delimiter [';']

/-- A word can end in front of the text: at white space or a semicolon. -/
def WordStops (rest : Text) : Prop := ∃ stop u, rest = stop :: u ∧ endsWord stop = true

theorem endsWord_eq_false_iff {c : Char} : endsWord c = false ↔ isSpace c = false ∧ c ≠ ';' := by
  rw [endsWord, Bool.or_eq_false_iff, beq_eq_false_iff_ne]

theorem kind_of_bracket? {opener closer : Char} {kind : Token.Kind}
    (opens : bracket? opener = some (closer, kind)) : kind ≠ .keyword ∧ kind ≠ .delimiter := by
  rcases bracket?_cases opens with ⟨-, -, rfl⟩ | ⟨-, -, rfl⟩ | ⟨-, -, rfl⟩ | ⟨-, -, rfl⟩ <;> decide

/-- A token can be cut off exactly if it has its shape, and a word also its end.  Shapes are a
matter of the token alone, so this splits off what the text behind it has to do with it. -/
theorem cut_iff {kind : Token.Kind} {w rest : Text} :
    Cut kind w rest ↔ Shape kind w ∧ (kind = .keyword → WordStops rest) := by
  constructor
  · intro cut
    cases cut with
    | @word first stop w rest letter inside stops =>
        refine ⟨.word letter fun c mem => endsWord_eq_false_iff.mp (inside c mem), ?_⟩
        intro _
        exact ⟨stop, rest, rfl, stops⟩
    | literal opens inside =>
        exact ⟨.literal opens inside, fun word => absurd word (kind_of_bracket? opens).1⟩
    | delimiter => exact ⟨.delimiter, fun word => by cases word⟩
  · rintro ⟨shape, ends⟩
    cases shape with
    | word letter inside =>
        obtain ⟨stop, u, rfl, stops⟩ := ends rfl
        exact .word letter (fun c mem => endsWord_eq_false_iff.mpr (inside c mem)) stops
    | literal opens inside => exact .literal opens inside
    | delimiter => exact .delimiter

namespace Shape

theorem exists_cons {kind : Token.Kind} {w : Text} (shape : Shape kind w) :
    ∃ first tail, w = first :: tail ∧ isSpace first = false :=
  (cut_iff.mpr ⟨shape, fun _ => ⟨';', [], rfl, rfl⟩⟩).exists_cons

theorem eq_semicolon {w : Text} (shape : Shape .delimiter w) : w = [';'] := by
  generalize same : Token.Kind.delimiter = kind at shape
  cases shape with
  | word _ _ => cases same
  | literal opens _ => exact absurd same.symm (kind_of_bracket? opens).2
  | delimiter => rfl

/-- What begins with a semicolon is a delimiter, since no word or literal does. -/
theorem kind_of_semicolon {kind : Token.Kind} {w : Text} (shape : Shape kind (';' :: w)) :
    kind = .delimiter := by
  generalize same : ';' :: w = text at shape
  cases shape with
  | word letter _ =>
      cases same
      exact absurd letter (by decide)
  | literal opens _ =>
      cases same
      cases opens
  | delimiter => rfl

end Shape

/-! ### Sequences of tokens -/

/-- Tokens, each at the place where it begins and with the white space behind it.  Behind a
word there is some, or the next token is a semicolon. -/
inductive Sequence : Location → List (Lexeme × Text) → Prop where
  | nil {l : Location} : Sequence l []
  | cons {l : Location} {kind : Token.Kind} {w gap : Text} {parts : List (Lexeme × Text)}
      (shape : Shape kind w) (blank : gap.isBlank = true)
      (ended : kind = .keyword →
        gap ≠ [] ∨ ∃ next others, parts = next :: others ∧ next.1.kind = .delimiter)
      (tail : Sequence ((l.past w).past gap) parts) :
      Sequence l ((⟨kind, l, w⟩, gap) :: parts)

/-- The text of tokens with the white space behind each of them. -/
def woven (parts : List (Lexeme × Text)) : Text :=
  weave (parts.map fun part => (part.1.text, part.2))

theorem woven_cons (x : Lexeme) (gap : Text) (parts : List (Lexeme × Text)) :
    woven ((x, gap) :: parts) = x.text ++ (gap ++ woven parts) :=
  weave_cons x.text gap _

/-- The text is white space and the given tokens, with white space behind each of them. -/
def Tokens (text : Text) (xs : List Lexeme) : Prop :=
  ∃ lead parts, lead.isBlank = true ∧ Sequence (Location.start.past lead) parts ∧
    text = lead ++ woven parts ∧ parts.map Prod.fst = xs

/-- The text begins with a character other than white space, and no token can be completed
at its front. -/
def Blocked (text : Text) : Prop :=
  (∃ c u, text = c :: u ∧ isSpace c = false) ∧
    ¬ ∃ kind w rest, text = w ++ rest ∧ Shape kind w ∧ (kind = .keyword → WordStops rest)

/-! ### Runs -/

theorem Stuck.location_eq {l : Location} {t : Text} {d : Diagnostic} (stuck : Stuck l t d) :
    d.location = l := by
  cases stuck <;> rfl

/-- A text is stuck exactly if no token can be completed at its front.  Being blocked is said
without reasons and places; the diagnostic is settled by the text and its location. -/
theorem blocked_iff {l : Location} {t : Text} : Blocked t ↔ ∃ d, Stuck l t d := by
  constructor
  · rintro ⟨⟨c, u, rfl, notSpace⟩, incomplete⟩
    rcases front_cases l (c :: u) with
      empty | ⟨_, _, same, space⟩ | ⟨kind, w, rest, cut, same⟩ | stuck
    · cases empty
    · cases same
      rw [notSpace] at space
      cases space
    · exact absurd ⟨kind, w, rest, same, cut_iff.mp cut⟩ incomplete
    · exact stuck
  · rintro ⟨d, stuck⟩
    obtain ⟨first, tail, rfl, notSpace⟩ := stuck.exists_cons
    refine ⟨⟨first, tail, rfl, notSpace⟩, ?_⟩
    -- A token that could be completed would be cut off instead.
    rintro ⟨kind, w, rest, same, complete⟩
    have cut := cut_iff.mpr complete
    obtain ⟨first', tail', rfl, -⟩ := cut.exists_cons
    obtain ⟨rfl, -⟩ := List.cons.inj same
    have refused := next_of_stuck (c := ⟨first :: tail, 0, l⟩) stuck rfl
    rw [next_of_cut cut same] at refused
    cases refused

/-- A semicolon never gets a text stuck.  So behind a word that is followed by one, scanning goes
on. -/
theorem Stuck.not_semicolon {l : Location} {t : Text} {d : Diagnostic}
    (stuck : Stuck l (';' :: t) d) : False :=
  (blocked_iff.mpr ⟨d, stuck⟩).2 ⟨.delimiter, [';'], t, rfl, .delimiter, fun word => by cases word⟩

/-- White space in front of a run is skipped, and moves it to where the white space ends. -/
theorem Scanned.blank_append {gap : Text} (blank : gap.isBlank = true) {l : Location}
    {rest : Text} {r : Except Diagnostic (List Lexeme)} (run : Scanned (l.past gap) rest r) :
    Scanned l (gap ++ rest) r := by
  induction gap generalizing l with
  | nil => exact run
  | cons c gap ih =>
      obtain ⟨space, blank⟩ := Bool.and_eq_true_iff.mp blank
      exact .space space (ih blank run)

/-- Behind a word of a sequence the word ends, at white space or at the semicolon that is the next
token. -/
theorem wordStops_of_ended {l : Location} {gap : Text} {parts : List (Lexeme × Text)}
    (blank : gap.isBlank = true) (tail : Sequence l parts)
    (ended : gap ≠ [] ∨ ∃ next others, parts = next :: others ∧ next.1.kind = .delimiter)
    (rest : Text) : WordStops (gap ++ (woven parts ++ rest)) := by
  cases gap with
  | cons c gap =>
      obtain ⟨space, -⟩ := Bool.and_eq_true_iff.mp blank
      exact ⟨c, gap ++ (woven parts ++ rest), rfl, by rw [endsWord, space, Bool.true_or]⟩
  | nil =>
      obtain ⟨next, others, rfl, delimiter⟩ := ended.resolve_left (absurd rfl)
      cases tail with
      | @cons _ _ w gap' _ shape _ _ _ =>
          cases delimiter
          obtain rfl := shape.eq_semicolon
          exact ⟨';', gap' ++ (woven others ++ rest), by rw [woven_cons]; simp, rfl⟩

/-- A sequence of tokens is gone through token by token, and then what follows it is.  What comes
of the rest is left open, so that the sequence may be only a beginning. -/
theorem Sequence.scanned {l : Location} {parts : List (Lexeme × Text)} (sequence : Sequence l parts)
    {rest : Text} {r : Except Diagnostic (List Lexeme)}
    (run : Scanned (l.past (woven parts)) rest r) :
    Scanned l (woven parts ++ rest) (r.map (parts.map Prod.fst ++ ·)) := by
  induction sequence with
  | nil =>
      have same : r.map (([] : List (Lexeme × Text)).map Prod.fst ++ ·) = r := by cases r <;> rfl
      rw [same]
      exact run
  | @cons l kind w gap parts shape blank ended tail ih =>
      rw [woven_cons, Location.past_append, Location.past_append] at run
      have cut : Cut kind w (gap ++ (woven parts ++ rest)) :=
        cut_iff.mpr ⟨shape, fun word => wordStops_of_ended blank tail (ended word) rest⟩
      have whole := Scanned.cut (l := l) cut (.blank_append blank (ih run))
      rw [woven_cons, List.append_assoc, List.append_assoc]
      cases r <;> exact whole

/-- A word that is cut off is followed by white space or a semicolon, which is a token of its
own. -/
theorem ended_of_wordStops {l : Location} {lead rest : Text} {parts : List (Lexeme × Text)}
    (sequence : Sequence l parts) (remains : rest = [] ∨ ∃ l d, Stuck l rest d)
    (stops : WordStops (lead ++ (woven parts ++ rest))) :
    lead ≠ [] ∨ ∃ next others, parts = next :: others ∧ next.1.kind = .delimiter := by
  cases lead with
  | cons c lead => exact Or.inl (List.cons_ne_nil c lead)
  | nil =>
      obtain ⟨stop, u, text, stops⟩ := stops
      -- Neither a token nor a stuck text begins with white space, so the end is a semicolon.
      have semicolon (notSpace : isSpace stop = false) : stop = ';' := by
        by_contra other
        rw [endsWord_eq_false_iff.mpr ⟨notSpace, other⟩] at stops
        cases stops
      cases sequence with
      | nil =>
          rcases remains with rfl | ⟨l', d, stuck⟩
          · cases text
          · obtain ⟨first, tail, rfl, notSpace⟩ := stuck.exists_cons
            cases text
            obtain rfl := semicolon notSpace
            exact stuck.not_semicolon.elim
      | @cons _ kind w gap parts shape _ _ _ =>
          obtain ⟨first, tail, rfl, notSpace⟩ := shape.exists_cons
          rw [woven_cons] at text
          cases text
          obtain rfl := semicolon notSpace
          exact Or.inr ⟨_, parts, rfl, shape.kind_of_semicolon⟩

/-- Every run skips white space and goes through a sequence of tokens, to the end of the text
or to a place where it is stuck. -/
theorem Scanned.exists_sequence {l : Location} {t : Text} {r : Except Diagnostic (List Lexeme)}
    (run : Scanned l t r) :
    ∃ lead parts rest, lead.isBlank = true ∧ Sequence (l.past lead) parts ∧
      t = lead ++ (woven parts ++ rest) ∧
      ((rest = [] ∧ r = .ok (parts.map Prod.fst)) ∨
        ∃ d, Stuck (l.past (lead ++ woven parts)) rest d ∧ r = .error d) := by
  induction run with
  | nil => exact ⟨[], [], [], rfl, .nil, rfl, Or.inl ⟨rfl, rfl⟩⟩
  | @space l c rest r space _ ih =>
      obtain ⟨lead, parts, rest, blank, sequence, rfl, outcome⟩ := ih
      refine ⟨c :: lead, parts, rest, ?_, sequence, rfl, outcome⟩
      exact Bool.and_eq_true_iff.mpr ⟨space, blank⟩
  | @cut l kind w _ r cut _ ih =>
      obtain ⟨lead, parts, rest, blank, sequence, rfl, outcome⟩ := ih
      obtain ⟨shape, ends⟩ := cut_iff.mp cut
      have remains : rest = [] ∨ ∃ l d, Stuck l rest d := by
        rcases outcome with ⟨empty, -⟩ | ⟨d, stuck, -⟩
        · exact Or.inl empty
        · exact Or.inr ⟨_, d, stuck⟩
      -- The white space in front of what follows is the white space behind the token.
      refine ⟨[], (⟨kind, l, w⟩, lead) :: parts, rest, rfl, ?_, ?_, ?_⟩
      · refine .cons shape blank ?_ sequence
        intro word
        exact ended_of_wordStops sequence remains (ends word)
      · rw [woven_cons]
        simp
      · rcases outcome with ⟨rfl, rfl⟩ | ⟨d, stuck, rfl⟩
        · exact Or.inl ⟨rfl, rfl⟩
        · refine Or.inr ⟨d, ?_, rfl⟩
          rw [List.nil_append, woven_cons, Location.past_append]
          exact stuck
  | @stuck l t d stuck => exact ⟨[], [], t, rfl, .nil, rfl, Or.inr ⟨d, stuck, rfl⟩⟩

/-! ### Texts -/

theorem scan_eq_iff {text : Text} {r : Except Diagnostic (List Lexeme)} :
    scan text = r ↔ Scanned .start text r :=
  scanFrom_eq_iff (c := .ofText text)

/-- A sequence of tokens at the front of a text is cut off, whatever comes of the rest.  The
locations of the rest are those behind the sequence. -/
theorem Tokens.scanned {front rest : Text} {xs : List Lexeme} (tokens : Tokens front xs)
    {r : Except Diagnostic (List Lexeme)} (run : Scanned (Location.start.past front) rest r) :
    Scanned .start (front ++ rest) (r.map (xs ++ ·)) := by
  obtain ⟨lead, parts, blank, sequence, rfl, rfl⟩ := tokens
  rw [Location.past_append] at run
  rw [List.append_assoc]
  exact .blank_append blank (sequence.scanned run)

/-- Every text is a sequence of tokens, or one in front of a text that is stuck.  There is no
third way for scanning to go. -/
theorem scan_cases (text : Text) :
    (∃ xs, Tokens text xs ∧ scan text = .ok xs) ∨
      ∃ front xs rest d, text = front ++ rest ∧ Tokens front xs ∧
        Stuck (Location.start.past front) rest d ∧ scan text = .error d := by
  obtain ⟨lead, parts, rest, blank, sequence, split, outcome⟩ :=
    (scan_eq_iff.mp rfl : Scanned .start text (scan text)).exists_sequence
  rcases outcome with ⟨rfl, accepted⟩ | ⟨d, stuck, refused⟩
  · rw [List.append_nil] at split
    exact Or.inl ⟨_, ⟨lead, parts, blank, sequence, split, rfl⟩, accepted⟩
  · rw [← List.append_assoc] at split
    exact Or.inr ⟨_, _, rest, d, split, ⟨lead, parts, blank, sequence, rfl, rfl⟩, stuck, refused⟩

theorem scan_of_tokens {text : Text} {xs : List Lexeme} (tokens : Tokens text xs) :
    scan text = .ok xs := by
  have run : Scanned .start (text ++ []) _ := tokens.scanned .nil
  rw [List.append_nil] at run
  rw [scan_eq_iff.mpr run, Except.map, List.append_nil]

/-- A sequence of tokens in front of a stuck text does not save it: the refusal is that of the
stuck text, at its place. -/
theorem scan_of_stuck {front rest : Text} {xs : List Lexeme} {d : Diagnostic}
    (tokens : Tokens front xs) (stuck : Stuck (Location.start.past front) rest d) :
    scan (front ++ rest) = .error d :=
  scan_eq_iff.mpr (tokens.scanned (.stuck stuck))

/-- **Scanning accepts sequences of tokens, and nothing else.**  A text is cut into lexemes
exactly if it is white space and the tokens of these lexemes, with white space behind each of
them: words, each with white space or a semicolon behind it, literals and semicolons, each of
its kind, with its text and at the place where it begins.  Every other text is refused.  The
place of the refusal is the one behind a sequence of tokens at which no token can be
completed. -/
theorem scan_exact (text : Text) :
    (∀ xs, scan text = .ok xs ↔ Tokens text xs) ∧
      ((∃ d, scan text = .error d) ↔ ¬ ∃ xs, Tokens text xs) ∧
      ∀ l, (∃ d, scan text = .error d ∧ d.location = l) ↔
        ∃ front xs rest, text = front ++ rest ∧ Tokens front xs ∧ Blocked rest ∧
          l = Location.start.past front := by
  refine ⟨?_, ?_, ?_⟩
  · intro xs
    refine ⟨fun accepted => ?_, scan_of_tokens⟩
    rcases scan_cases text with ⟨ys, tokens, cut⟩ | ⟨_, _, _, d, -, -, -, refused⟩
    · cases accepted.symm.trans cut
      exact tokens
    · cases accepted.symm.trans refused
  · constructor
    · rintro ⟨d, refused⟩ ⟨xs, tokens⟩
      cases refused.symm.trans (scan_of_tokens tokens)
    · intro other
      rcases scan_cases text with ⟨xs, tokens, -⟩ | ⟨_, _, _, d, -, -, -, refused⟩
      · exact absurd ⟨xs, tokens⟩ other
      · exact ⟨d, refused⟩
  · intro l
    constructor
    · rintro ⟨d, refused, rfl⟩
      rcases scan_cases text with
        ⟨xs, -, accepted⟩ | ⟨front, xs, rest, d', split, tokens, stuck, found⟩
      · cases refused.symm.trans accepted
      · cases refused.symm.trans found
        exact ⟨front, xs, rest, split, tokens, blocked_iff.mpr ⟨d, stuck⟩, stuck.location_eq⟩
    · rintro ⟨front, xs, rest, rfl, tokens, blocked, rfl⟩
      obtain ⟨d, stuck⟩ := blocked_iff.mp blocked
      exact ⟨d, scan_of_stuck tokens stuck, stuck.location_eq⟩

end Lexeme

end Pizzeria
