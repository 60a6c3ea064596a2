import Pizzeria.Proofs.Diagnostics
import Pizzeria.Proofs.Relocation

/-!
# Layout does not matter

The same tokens can be set out in many ways: on one line or on many, with blanks or
without, with comments between them.  Only a word needs something behind it, unless a
semicolon follows or the text ends.  However the tokens are set out, the source is read
as these tokens, so two ways to set them out lead to the same program or to the same
refusal at the same token.

Both ways are compared with a third reading of the tokens, which has no text around
them: each token has its number in the list for a location.

## Main Definitions

* `Lexeme.Spaced`, `Lexeme.Spacing` — tokens with layout around them.
* `Lexeme.Spacing.source`, `Lexeme.Spacing.location` — the text, and where its tokens
  stand.
* `Lexeme.numbered` — tokens at their numbers.

## Main Results

* `Lexeme.Spacing.laidOut` — spaced tokens are laid out as these tokens.
* `Program.ofSource_spacing` — reading spaced tokens is reading the numbered ones.
-/

namespace Pizzeria

namespace Lexeme

/-! ### Tokens with layout around them -/

/-- Tokens, each with the layout behind it.  A word in front of another token than a
semicolon has some. -/
inductive Spaced : List (Text × Text) → Prop where
  | nil : Spaced []
  | cons {kind : Token.Kind} {w gap : Text} {parts : List (Text × Text)} (neat : Neat kind w)
      (layout : Layout gap)
      (parted : kind = .keyword → ∀ next rest, parts = next :: rest → next.1 ≠ [';'] → gap ≠ [])
      (tail : Spaced parts) : Spaced ((w, gap) :: parts)

/-- A way to set out tokens. -/
structure Spacing where
  /-- The layout in front of the first token. -/
  lead : Text
  /-- The tokens, each with the layout behind it. -/
  parts : List (Text × Text)
  layout : Layout lead
  spaced : Spaced parts

namespace Spacing

/-- The tokens that are set out. -/
def tokens (a : Spacing) : List Text := a.parts.map Prod.fst

/-- The source text. -/
def source (a : Spacing) : Text := a.lead ++ weave a.parts

/-- The place in the source text of the token with this number, counted from zero. -/
def location (a : Spacing) (i : Nat) : Location :=
  Location.start.past (a.lead ++ weave (a.parts.take i))

end Spacing

/-! ### Lexemes of spaced tokens -/

/-- The kind of lexeme that a text can be, by its first character. -/
def kindOf : Text → Token.Kind
  | [] => .delimiter
  | c :: _ => if isLetter c then .keyword else ((bracket? c).map Prod.snd).getD .delimiter

/-- The kind of a token can be told by its first character.  So texts alone say which tokens are
set out. -/
theorem Neat.kindOf_eq {kind : Token.Kind} {w : Text} (neat : Neat kind w) :
    kindOf w = kind := by
  cases neat with
  | word nonempty letters =>
      obtain ⟨c, w, rfl⟩ := List.exists_cons_of_ne_nil nonempty
      rw [kindOf, if_pos (letters c List.mem_cons_self)]
  | literal opens _ =>
      rw [kindOf, if_neg (by simp [eq_false_of_bracket? (p := isLetter) rfl opens]), opens]
      rfl
  | delimiter => rfl

/-- The lexemes of spaced tokens that begin at `l`. -/
def lexemesAt (l : Location) (parts : List (Text × Text)) : List Lexeme :=
  parts.mapIdx fun i part => ⟨kindOf part.1, l.past (weave (parts.take i)), part.1⟩

/-- The first token stands where the tokens begin, and the others behind it and its layout. -/
theorem lexemesAt_cons (l : Location) (w gap : Text) (parts : List (Text × Text)) :
    lexemesAt l ((w, gap) :: parts) =
      ⟨kindOf w, l, w⟩ :: lexemesAt ((l.past w).past gap) parts := by
  unfold lexemesAt
  rw [List.mapIdx_cons]
  congr 2
  funext i part
  rw [List.take_succ_cons, weave_cons, Location.past_append, Location.past_append]

/-- Layout that is not empty ends a word.  It begins with white space or with the `#` of a
comment. -/
theorem wordEnds_of_layout {gap : Text} (layout : Layout gap) (nonempty : gap ≠ [])
    (rest : Text) : WordEnds (gap ++ rest) := by
  cases layout with
  | nil => exact absurd rfl nonempty
  | @space c t space _ => exact ⟨c, t ++ rest, rfl, Or.inl (by simp [endsWord, space])⟩
  | @comment note t _ _ => exact ⟨'#', note ++ '\n' :: t ++ rest, rfl, Or.inr rfl⟩

/-- Behind a word of spaced tokens the word ends, if anything is left of the text.  A word at the
very end of a text is ended by the newline that closes the last line. -/
theorem wordEnds_of_parted {gap tail : Text} {parts : List (Text × Text)} (layout : Layout gap)
    (parted : ∀ next rest, parts = next :: rest → next.1 ≠ [';'] → gap ≠ [])
    (layoutTail : Layout tail) (more : gap ++ (weave parts ++ tail) ≠ []) :
    WordEnds (gap ++ (weave parts ++ tail)) := by
  by_cases empty : gap = []
  · subst empty
    cases parts with
    | nil =>
        have ends := wordEnds_of_layout layoutTail more []
        rwa [List.append_nil] at ends
    | cons next rest =>
        have semicolon : next.1 = [';'] := by
          by_contra other
          exact parted next rest rfl other rfl
        refine ⟨';', next.2 ++ weave rest ++ tail, ?_, Or.inl rfl⟩
        simp [weave, semicolon]
  · exact wordEnds_of_layout layout empty _

/-- More layout in front of a text that is laid out makes no difference but to the places. -/
theorem LaidOut.layout_append {l : Location} {gap t : Text} {xs : List Lexeme}
    (layout : Layout gap) (laid : LaidOut (l.past gap) t xs) : LaidOut l (gap ++ t) xs := by
  cases laid with
  | done behind => exact .done (layout.append behind)
  | @token _ gap' rest x xs front place neat ends tail =>
      rw [← List.append_assoc]
      refine .token (layout.append front) ?_ neat ends tail
      rw [place, Location.past_append]

/-- Spaced tokens in front of layout are laid out as these tokens, if the text ends its
last line. -/
theorem Spaced.laidOut {parts : List (Text × Text)} (spaced : Spaced parts) {tail : Text}
    (layoutTail : Layout tail)
    (ended : ∀ c, (weave parts ++ tail).getLast? = some c → c = '\n') (l : Location) :
    LaidOut l (weave parts ++ tail) (lexemesAt l parts) := by
  induction spaced generalizing l with
  | nil => exact .done layoutTail
  | @cons kind w gap parts neat layout parted _ ih =>
      have split : weave ((w, gap) :: parts) ++ tail = w ++ (gap ++ (weave parts ++ tail)) := by
        rw [weave_cons, List.append_assoc, List.append_assoc]
      rw [split] at ended ⊢
      have endedTail : ∀ c, (weave parts ++ tail).getLast? = some c → c = '\n' := by
        intro c last
        apply ended c
        rw [← List.append_assoc, List.getLast?_append, last]
        rfl
      -- A word at the very end of the text would end the last line with a letter.
      have more : kind = .keyword → gap ++ (weave parts ++ tail) ≠ [] := by
        rintro rfl nothing
        have last := List.getLast?_eq_some_getLast neat.ne_nil
        have newline := ended _ (by rw [nothing, List.append_nil, last])
        have letter := neat.letters _ (List.getLast_mem neat.ne_nil)
        rw [newline] at letter
        exact absurd letter (by decide)
      rw [lexemesAt_cons, neat.kindOf_eq]
      refine .cons neat ?_ (.layout_append layout (ih endedTail _))
      intro word
      exact wordEnds_of_parted layout (parted word) layoutTail (more word)

/-- The source text of spaced tokens, with its last line ended, is laid out as these
tokens. -/
theorem Spacing.laidOut (a : Spacing) :
    LaidOut .start (Program.closeLine a.source)
      (lexemesAt (Location.start.past a.lead) a.parts) := by
  obtain ⟨tail, closed, layoutTail⟩ := Program.exists_closeLine_eq_append a.source
  obtain ⟨front, line⟩ := exists_closeLine a.source
  rw [closed, source, List.append_assoc] at line ⊢
  refine .layout_append a.layout (a.spaced.laidOut layoutTail ?_ _)
  intro c last
  have whole := congrArg List.getLast? line
  rw [List.getLast?_append, last, List.getLast?_concat] at whole
  exact Option.some.inj whole

/-! ### Numbered tokens -/

/-- The lexemes of tokens that are not set out anywhere: each stands at its number. -/
def numbered (tokens : List Text) : List Lexeme :=
  tokens.mapIdx fun i w => ⟨kindOf w, ⟨i, 0⟩, w⟩

/-- The lexemes of spaced tokens are the numbered ones, each moved to its place.  The number of a
token is kept as if it were its line. -/
theorem Spacing.lexemesAt_eq (a : Spacing) :
    lexemesAt (Location.start.past a.lead) a.parts =
      (numbered a.tokens).map (Lexeme.relocated fun l => a.location l.line) := by
  apply List.ext_getElem?
  intro i
  unfold lexemesAt numbered tokens
  rw [List.getElem?_map, List.getElem?_mapIdx, List.getElem?_mapIdx, List.getElem?_map]
  cases a.parts[i]? with
  | none => rfl
  | some part =>
      simp only [Option.map_some, Lexeme.relocated, location, Location.past_append]

theorem getElem?_of_mem_numbered {tokens : List Text} {x : Lexeme}
    (mem : x ∈ numbered tokens) : tokens[x.location.line]? = some x.text := by
  obtain ⟨i, bound, rfl⟩ := List.mem_mapIdx.mp mem
  exact List.getElem?_eq_getElem bound

end Lexeme

/-! ### Reading spaced tokens -/

namespace Program

open Lexeme Diagnostic

/-- Source text that is laid out as lexemes means what these mean; the layout between them plays
no part. -/
theorem ofSource_of_laidOut {source : Text} {xs : List Lexeme}
    (laid : LaidOut .start (closeLine source) xs) (g : Grammar) :
    ofSource g source = ofLexemes g xs := by
  have read := laid.ofSourceFrom_append []
  rw [List.append_nil, Lexeme.ofSourceFrom_nil, Except.map, List.append_nil] at read
  rw [ofSource_eq, ofSourceFrom, Token.ofSourceFrom, read]
  rfl

/-- However tokens are set out, reading them is reading the numbered tokens.  Two ways to set them
out are compared through this third. -/
theorem ofSource_spacing (a : Spacing) :
    ofSource Grammar.spl1 a.source =
      relocateOutcome (fun l => a.location l.line) id
        (ofLexemes Grammar.spl1 (numbered a.tokens)) := by
  rw [ofSource_of_laidOut a.laidOut, a.lexemesAt_eq, ofLexemes_relocated]

/-- Lexemes that are refused are quoted by one of them.  So the refusal can be moved to where this
one stands. -/
theorem exists_lexeme_of_ofLexemes {xs : List Lexeme} {d : Diagnostic}
    (refused : ofLexemes Grammar.spl1 xs = .error d) :
    ∃ x ∈ xs, d.token = some x.text ∧ d.location = x.location := by
  rcases Except.bind_eq_error_iff.mp refused with refused | ⟨ts, decoded, refused⟩
  · obtain ⟨before, x, behind, -, rfl, -, refused⟩ := Except.mapM_eq_error_iff.mp refused
    exact ⟨x, by simp, quoted_of_decode refused⟩
  · obtain ⟨t, mem, quoted⟩ := exists_token_of_ofTokens refused
    obtain ⟨x, among, decode⟩ := Except.exists_of_mem_mapM decoded mem
    obtain ⟨value, -, rfl⟩ := Except.map_eq_ok_iff.mp decode
    exact ⟨x, among, quoted⟩

/-- **Layout does not matter.**  Take any tokens, each a word of letters, a literal or a
semicolon, and set them out in two ways with white space and comments around them.  Then
both source texts are the same program, or both are refused with the same kind, stage,
token and message, each at the place where it has one and the same of the tokens. -/
theorem ofSource_eq_of_tokens_eq (v : Grammar.Version) {a b : Spacing}
    (same : a.tokens = b.tokens) :
    (∃ program, ofSource v.grammar a.source = .ok program ∧
        ofSource v.grammar b.source = .ok program) ∨
      ∃ (d : Diagnostic) (i : Nat) (w : Text), a.tokens[i]? = some w ∧ d.token = some w ∧
        ofSource v.grammar a.source = .error { d with location := a.location i } ∧
        ofSource v.grammar b.source = .error { d with location := b.location i } := by
  rw [Grammar.Version.grammar_eq, ofSource_spacing, ofSource_spacing, ← same]
  cases outcome : ofLexemes Grammar.spl1 (numbered a.tokens) with
  | ok program => exact Or.inl ⟨program, rfl, rfl⟩
  | error d =>
      obtain ⟨x, mem, token, place⟩ := exists_lexeme_of_ofLexemes outcome
      have found := getElem?_of_mem_numbered mem
      rw [← place] at found
      exact Or.inr ⟨d, d.location.line, x.text, found, token, rfl, rfl⟩

theorem neat_quit : Neat .keyword "QUIT" := .word (by decide) (List.all_eq_true.mp rfl)

theorem neat_faultyInteger : Neat .integer "(x)" :=
  @Neat.literal '(' ')' .integer "x" rfl (by decide)

/-- A statement and a faulty integer, with nothing between the tokens. -/
def crowded : Spacing where
  lead := []
  parts := [("QUIT", ""), (";", ""), ("(x)", ""), (";", "")]
  layout := .nil
  spaced :=
    .cons neat_quit .nil (fun _ next _ same other => absurd (by cases same; rfl) other)
      (.cons .delimiter .nil (fun word => by cases word)
        (.cons neat_faultyInteger .nil (fun word => by cases word)
          (.cons .delimiter .nil (fun word => by cases word) .nil)))

/-- The same tokens, with comments between them that hold a lone parenthesis each. -/
def scattered : Spacing where
  lead := "# bye\n"
  parts := [("QUIT", "# (\n"), (";", " "), ("(x)", "#)\n"), (";", "\t")]
  layout := @Layout.comment " bye" [] (by decide) .nil
  spaced :=
    .cons neat_quit (@Layout.comment " (" [] (by decide) .nil)
      (fun _ _ _ _ _ => List.cons_ne_nil _ _)
      (.cons .delimiter (.space rfl .nil) (fun word => by cases word)
        (.cons neat_faultyInteger (@Layout.comment ")" [] (by decide) .nil)
          (fun word => by cases word)
          (.cons .delimiter (.space rfl .nil) (fun word => by cases word) .nil)))

theorem ofSource_eq_of_tokens_eq_faulty_integer :
    crowded.source = "QUIT;(x);" ∧
      scattered.source = "# bye\nQUIT# (\n; (x)#)\n;\t" ∧
      crowded.tokens = scattered.tokens ∧
      ∃ (d : Diagnostic) (i : Nat) (w : Text), crowded.tokens[i]? = some w ∧ d.token = some w ∧
        ofSource Grammar.spl2 crowded.source = .error { d with location := crowded.location i } ∧
        ofSource Grammar.spl2 scattered.source =
          .error { d with location := scattered.location i } := by
  have same : crowded.tokens = scattered.tokens := rfl
  refine ⟨rfl, rfl, same, (ofSource_eq_of_tokens_eq .spl2 same).resolve_left ?_⟩
  rintro ⟨program, read, -⟩
  have refused : (ofSource Grammar.Version.spl2.grammar crowded.source).isOk = false := by
    decide +kernel
  rw [read] at refused
  cases refused

end Program

end Pizzeria
