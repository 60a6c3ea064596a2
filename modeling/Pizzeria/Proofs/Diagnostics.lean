import Pizzeria.Proofs.Forms
import Pizzeria.Proofs.Reading

/-!
# Diagnostics point at the source

A source text is refused at one of three stages, each of which has lost some of it.
Cutting lexemes no longer sees the comments, decoding no longer sees the text between
lexemes, and building statements no longer sees the delimiters.  Nevertheless every
diagnostic names a place of the text as it was written, and what it quotes stands
there.

The places of lexemes are those of the source because comments never move what is on
their left, and a literal that goes over a line break is cut as it was written as long
as everything in front of it was decoded.

## Main Definitions

* `Diagnostic.Quotes` — the diagnostic quotes what stands at its location.
* `Diagnostic.ReportsUnclosed` — the diagnostic points at a literal without an end.
-/

namespace Pizzeria

namespace Diagnostic

/-- The diagnostic quotes a token, and the text has it at the location of the
diagnostic. -/
def Quotes (d : Diagnostic) (text : Text) : Prop :=
  ∃ t rest, d.token = some t ∧ t ≠ [] ∧ text.atLocation? d.location = some (t ++ rest)

/-- The diagnostic says that the text ends too early, and at its location the text has
an opening character whose closer does not follow once the comments are left out. -/
def ReportsUnclosed (d : Diagnostic) (text : Text) : Prop :=
  d.token = none ∧ d.kind = .endOfInput ∧ d.stage = .tokenization ∧
    ∃ opener closer kind rest code behind,
      bracket? opener = some (closer, kind) ∧
      text.atLocation? d.location = some (opener :: rest) ∧
      uncomment text = .ok code ∧
      code.atLocation? d.location = some (opener :: behind) ∧ closer ∉ behind

end Diagnostic

/-! ### Cutting lexemes -/

namespace Lexeme

/-- What is on one line of the text without comments stands at its place in the
source. -/
theorem atLocation?_of_uncomment {text code front run back : Text}
    (left : uncomment text = .ok code) (split : code = front ++ (run ++ back))
    (nonempty : run ≠ []) (inLine : '\n' ∉ run) :
    ∃ rest, text.atLocation? (Location.start.past front) = some (run ++ rest) := by
  have aligned : Zone.code.Aligned .start .start := rfl
  have kept : Zone.code.kept .start text = front ++ (run ++ back) :=
    (kept_of_uncommentFrom left).trans split
  obtain ⟨front', back', whole, place⟩ := Zone.exists_of_kept_eq aligned kept nonempty inLine
  exact ⟨back', Text.atLocation?_eq_some_iff.mpr ⟨front', whole, place⟩⟩

/-- A word is on one line, since white space would end it.  So its place is the same with comments
and without. -/
theorem newline_notMem_word {first : Char} {w : Text} (notSpace : isSpace first = false)
    (inside : ∀ c ∈ w, endsWord c = false) : '\n' ∉ first :: w := by
  intro mem
  rcases List.mem_cons.mp mem with rfl | mem
  · exact absurd notSpace (by decide)
  · exact absurd (inside _ mem) (by decide)

/-- In front of a newline only a literal can run on to the end of the text.  Words end at the
newline at the latest. -/
theorem Stuck.cases_of_newline {l : Location} {text : Text} {d : Diagnostic}
    (stuck : Stuck l text d) (newline : '\n' ∈ text) :
    (∃ first w rest, text = first :: w ++ rest ∧ '\n' ∉ first :: w ∧
        d = unrecognized l (first :: w)) ∨
      ∃ opener closer kind body, bracket? opener = some (closer, kind) ∧ closer ∉ body ∧
        text = opener :: body ∧ d = .endOfInput .tokenization l := by
  cases stuck with
  | word letter inside =>
      exact absurd newline (newline_notMem_word (isSpace_eq_false_of_isLetter letter) inside)
  | lastStray stray inside => exact absurd newline (newline_notMem_word stray.notSpace inside)
  | literal opens inside => exact Or.inr ⟨_, _, _, _, opens, inside, rfl, rfl⟩
  | stray stray inside _ =>
      exact Or.inl ⟨_, _, _, rfl, newline_notMem_word stray.notSpace inside, rfl⟩

/-- A text of which no lexemes can be cut is refused where it has text that begins
none, or an open literal. -/
theorem located_of_scan {text code : Text} {d : Diagnostic} (left : uncomment text = .ok code)
    (line : code.getLast? = some '\n') (refused : scan code = .error d) :
    d.Quotes text ∨ d.ReportsUnclosed text := by
  obtain ⟨front, rest, split, stuck⟩ := (scanned_scanFrom .start code).exists_stuck refused
  have newline : '\n' ∈ rest := by
    obtain ⟨first, tail, rfl, -⟩ := stuck.exists_cons
    rw [split, List.getLast?_append_of_ne_nil front (List.cons_ne_nil first tail)] at line
    exact List.mem_of_getLast? line
  rcases stuck.cases_of_newline newline with
    ⟨first, w, back, rfl, inLine, rfl⟩ | ⟨opener, closer, kind, body, opens, inside, rfl, rfl⟩
  · obtain ⟨rest, found⟩ :=
      atLocation?_of_uncomment left split (List.cons_ne_nil first w) inLine
    exact Or.inl ⟨first :: w, rest, rfl, List.cons_ne_nil first w, found⟩
  · have inLine : '\n' ∉ [opener] := by
      intro mem
      rw [← List.mem_singleton.mp mem] at opens
      cases opens
    obtain ⟨rest, found⟩ :=
      atLocation?_of_uncomment left split (List.cons_ne_nil opener []) inLine
    have place : code.atLocation? (Location.start.past front) = some (opener :: body) :=
      Text.atLocation?_eq_some_iff.mpr ⟨front, split, rfl⟩
    exact Or.inr ⟨rfl, rfl, rfl, opener, closer, kind, rest, code, body, opens, found, left,
      place, inside⟩

/-! ### Decoding lexemes -/

/-- A lexeme that cannot be decoded is the one that the diagnostic is about.  It gives both the
text that is quoted and the place. -/
theorem quoted_of_decode {x : Lexeme} {d : Diagnostic} (refused : x.decode = .error d) :
    d.token = some x.text ∧ d.location = x.location := by
  obtain ⟨kind, message, rfl, -⟩ := exists_refusal_of_decode refused
  exact ⟨rfl, rfl⟩

/-- A word is on one line, and every other lexeme that is cut is neat.  Either is enough to find
it in the source. -/
theorem Cut.inLine_or_neat {kind : Token.Kind} {w rest : Text} (cut : Cut kind w rest) :
    '\n' ∉ w ∨ Neat kind w := by
  cases cut with
  | word letter inside _ =>
      exact Or.inl (newline_notMem_word (isSpace_eq_false_of_isLetter letter) inside)
  | literal opens inside => exact Or.inr (.literal opens inside)
  | delimiter => exact Or.inr .delimiter

/-- A lexeme behind decoded ones stands in the source where it says, decoded or not.  It is the
first fault that is reported, so those before it have been decoded. -/
theorem atLocation?_of_before {text : Text} {before behind : List Lexeme} {x : Lexeme}
    {ts : List Token} (read : ofSourceFrom .start text = .ok (before ++ x :: behind))
    (decoded : Token.ofLexemes before = .ok ts) :
    x.text ≠ [] ∧ ∃ rest, text.atLocation? x.location = some (x.text ++ rest) := by
  obtain ⟨code, left, scanned⟩ := Except.bind_eq_ok_iff.mp read
  obtain ⟨front, rest, split, place, cut⟩ :=
    (scanned_scanFrom .start code).exists_cut scanned (List.mem_append_right _ List.mem_cons_self)
  obtain ⟨first, tail, shape, -⟩ := cut.exists_cons
  have nonempty : x.text ≠ [] := by
    rw [shape]
    exact List.cons_ne_nil first tail
  refine ⟨nonempty, ?_⟩
  -- A word may not be neat, but it is on one line; a literal may go over several lines,
  -- but it is neat, and so is everything in front of it.
  rcases cut.inLine_or_neat with inLine | neat
  · rw [place]
    exact atLocation?_of_uncomment left split nonempty inLine
  · have neatBefore := neat_of_ofLexemes read (List.subset_append_left before _) decoded
    obtain ⟨front, rest, split, place⟩ := exists_of_ofSourceFrom read neatBefore neat
    exact ⟨rest, Text.atLocation?_eq_some_iff.mpr ⟨front, split, place⟩⟩

/-- The first lexeme that is not decoded is quoted, at the place where the source has it. -/
theorem quotes_of_ofLexemes {text : Text} {xs : List Lexeme} {d : Diagnostic}
    (read : ofSourceFrom .start text = .ok xs) (refused : Token.ofLexemes xs = .error d) :
    d.Quotes text := by
  obtain ⟨before, x, behind, ts, rfl, decoded, refused⟩ := Except.mapM_eq_error_iff.mp refused
  obtain ⟨token, place⟩ := quoted_of_decode refused
  obtain ⟨nonempty, rest, found⟩ := atLocation?_of_before read decoded
  exact ⟨x.text, rest, token, nonempty, place ▸ found⟩

end Lexeme

/-! ### Building statements -/

namespace Program

/-- A statement that is refused is quoted by one of its tokens: the element that is of the wrong
kind, or else the first token. -/
theorem exists_token_of_statement {ts : List Token} {d : Diagnostic} (nonempty : ts ≠ [])
    (refused : Grammar.spl1.statement ts = .error d) :
    ∃ t ∈ ts, d.token = some t.text ∧ d.location = t.location := by
  rcases Grammar.statement_eq_error_iff.mp refused with
    ⟨t, expected, e, found, -, -, rfl⟩ | ⟨-, rfl⟩
  · exact ⟨t, List.mem_of_getElem? found, rfl, rfl⟩
  · obtain ⟨t, ts, rfl⟩ := List.exists_cons_of_ne_nil nonempty
    exact ⟨t, List.mem_cons_self, rfl, rfl⟩

/-- Tokens that are refused are quoted by one of them.  For a missing delimiter it is the first
token of the rest. -/
theorem exists_token_of_ofTokens {ts : List Token} {d : Diagnostic}
    (refused : ofTokens Grammar.spl1 ts = .error d) :
    ∃ t ∈ ts, d.token = some t.text ∧ d.location = t.location := by
  rcases exists_of_ofTokens_eq_error refused with
    ⟨t, mem, rfl⟩ | ⟨segment, among, nonempty, refused⟩
  · exact ⟨t, mem, rfl, rfl⟩
  · obtain ⟨t, mem, quoted⟩ := exists_token_of_statement nonempty refused
    exact ⟨t, among mem, quoted⟩

/-- What building statements refuses is quoted in the source, although it no longer sees anything
but tokens. -/
theorem quotes_of_ofTokens {text : Text} {xs : List Lexeme} {ts : List Token} {d : Diagnostic}
    (read : Lexeme.ofSourceFrom .start text = .ok xs) (decoded : Token.ofLexemes xs = .ok ts)
    (refused : ofTokens Grammar.spl1 ts = .error d) : d.Quotes text := by
  obtain ⟨t, mem, token, place⟩ := exists_token_of_ofTokens refused
  obtain ⟨x, among, decode⟩ := Except.exists_of_mem_mapM decoded mem
  obtain ⟨value, -, rfl⟩ := Except.map_eq_ok_iff.mp decode
  obtain ⟨before, behind, rfl⟩ := List.append_of_mem among
  obtain ⟨front, -, decodedBefore, -, -⟩ := Except.mapM_append_eq_ok_iff.mp decoded
  obtain ⟨nonempty, rest, found⟩ := Lexeme.atLocation?_of_before read decodedBefore
  exact ⟨x.text, rest, token, nonempty, place ▸ found⟩

/-- **Diagnostics point at the offending source.**  If a source text is refused, then
in the text, its last line ended, the token that the diagnostic quotes stands at the
location of the diagnostic; or the diagnostic quotes none, and an opening character
that is never closed stands there. -/
theorem located_of_refused (v : Grammar.Version) {source : Text} {d : Diagnostic}
    (refused : ofSource v.grammar source = .error d) :
    d.Quotes (closeLine source) ∨ d.ReportsUnclosed (closeLine source) := by
  rw [Grammar.Version.grammar_eq, ofSource_eq] at refused
  rcases Except.bind_eq_error_iff.mp refused with refused | ⟨ts, tokens, refused⟩
  · rcases Except.bind_eq_error_iff.mp refused with refused | ⟨xs, read, refused⟩
    · have left := uncomment_closeLine source
      obtain ⟨t, line⟩ := exists_closeLine source
      have ended : (Zone.code.kept .start (closeLine source)).getLast? = some '\n' := by
        rw [line, Zone.kept_line, List.getLast?_concat]
      rw [Lexeme.ofSourceFrom, show uncommentFrom .code .start _ = _ from left] at refused
      exact Lexeme.located_of_scan left ended refused
    · exact Or.inl (Lexeme.quotes_of_ofLexemes read refused)
  · obtain ⟨xs, read, decoded⟩ := Except.bind_eq_ok_iff.mp tokens
    exact Or.inl (quotes_of_ofTokens read decoded refused)

/-- A quote behind a comment that has an unmatched quote of its own. -/
theorem located_of_refused_open_quote :
    ofSource Grammar.spl2 "QUIT; # say \"bye\nNAME SESSION \"x ;" =
        .error (.endOfInput .tokenization ⟨2, 14⟩) ∧
      (Diagnostic.endOfInput .tokenization ⟨2, 14⟩).ReportsUnclosed
        (closeLine "QUIT; # say \"bye\nNAME SESSION \"x ;") := by
  have refused : ofSource Grammar.Version.spl2.grammar "QUIT; # say \"bye\nNAME SESSION \"x ;" =
      .error (.endOfInput .tokenization ⟨2, 14⟩) := by
    decide +kernel
  refine ⟨refused, (located_of_refused .spl2 refused).resolve_left ?_⟩
  rintro ⟨t, rest, token, -⟩
  cases token

end Program

end Pizzeria
