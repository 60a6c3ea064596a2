import Pizzeria.Proofs.Relocation

/-!
# Source texts one after the other

Reading depends on the place where a text begins only through the locations that it
reports.  Behind whole lines the same text is read in the same way, with every location
as many lines further down; so a text that is accepted can be put in front of another
one, on lines of its own.

## Main Definitions

* `Diagnostic.lowerOutcome` — an outcome, with what it reports or carries lowered.

## Main Results

* `Lexeme.ofSourceFrom_lowered`, `Token.ofSourceFrom_lowered`,
  `Program.ofSourceFrom_lowered` — each step reads lowered text alike.
* `Program.ofSource_append_eq` — the outcome for two texts one after the other.
-/

namespace Pizzeria

namespace Diagnostic

universe u

variable {α β : Type u}

/-- The outcome of the same work that many lines further down, where `f` lowers the
answer. -/
abbrev lowerOutcome (lines : Nat) (f : α → β) : Except Diagnostic α → Except Diagnostic β :=
  relocateOutcome (Location.lowered lines) f

end Diagnostic

open Diagnostic

/-! ### Comments -/

namespace Zone

/-- The same zone that many lines further down. -/
def lowered (lines : Nat) : Zone → Zone
  | code => code
  | literal closer => literal closer
  | comment start => comment (start.lowered lines)

/-- A zone goes on alike some lines further down.  Only a comment remembers a place, the one where
it began. -/
theorem after_lowered (lines : Nat) (zone : Zone) (l : Location) (c : Char) :
    (zone.lowered lines).after (l.lowered lines) c = (zone.after l c).lowered lines := by
  cases zone with
  | code =>
      rw [lowered, after, after]
      by_cases comment : c = '#'
      · rw [if_pos comment, if_pos comment]
        rfl
      · rw [if_neg comment, if_neg comment]
        cases bracket? c <;> rfl
  | literal closer =>
      rw [lowered, after, after]
      by_cases closes : c = closer
      · rw [if_pos closes]
        rfl
      · rw [if_neg closes]
        rfl
  | comment start =>
      rw [lowered, after, after]
      by_cases ends : c = '\n'
      · rw [if_pos ends, if_pos ends]
        rfl
      · rw [if_neg ends, if_neg ends]
        rfl

theorem comments_lowered (lines : Nat) (zone : Zone) (c : Char) :
    (zone.lowered lines).comments c = zone.comments c := by
  cases zone <;> rfl

end Zone

/-- Comments are left out alike some lines further down, and a comment without an end is reported
that much lower. -/
theorem uncommentFrom_lowered (lines : Nat) (zone : Zone) (l : Location) (t : Text) :
    uncommentFrom (zone.lowered lines) (l.lowered lines) t =
      lowerOutcome lines id (uncommentFrom zone l t) := by
  induction t generalizing zone l with
  | nil => cases zone <;> rfl
  | cons c t ih =>
      rw [uncommentFrom, uncommentFrom, Zone.after_lowered, Location.after_lowered, ih,
        Zone.comments_lowered]
      apply relocateOutcome_bind
      intro rest
      rfl

/-! ### Lexemes -/

namespace Lexeme

theorem Stuck.lowered {l : Location} {t : Text} {d : Diagnostic} (stuck : Stuck l t d)
    (lines : Nat) : Stuck (l.lowered lines) t (d.relocated (Location.lowered lines)) := by
  cases stuck with
  | word letter inside => exact .word letter inside
  | literal opens inside => exact .literal opens inside
  | stray stray inside stops => exact .stray stray inside stops
  | lastStray stray inside => exact .lastStray stray inside

/-- Each step of scanning is the same some lines further down.  The induction is on the steps;
none of them looks at a location. -/
theorem Scanned.lowered {l : Location} {t : Text} {r : Except Diagnostic (List Lexeme)}
    (run : Scanned l t r) (lines : Nat) :
    Scanned (l.lowered lines) t
      (lowerOutcome lines (List.map (Lexeme.relocated (Location.lowered lines))) r) := by
  induction run with
  | nil => exact .nil
  | @space l c rest r space _ ih =>
      refine .space space ?_
      rwa [Location.after_lowered]
  | @cut l kind w rest r cut _ ih =>
      rw [← Location.past_lowered] at ih
      have lowered := Scanned.cut cut ih
      cases r with
      | error d => exact lowered
      | ok xs => exact lowered
  | stuck stuck => exact .stuck (stuck.lowered lines)

/-- Lexemes are cut alike some lines further down, since both passes go by characters only. -/
theorem ofSourceFrom_lowered (lines : Nat) (l : Location) (source : Text) :
    ofSourceFrom (l.lowered lines) source =
      lowerOutcome lines (List.map (Lexeme.relocated (Location.lowered lines)))
        (ofSourceFrom l source) := by
  have left := uncommentFrom_lowered lines .code l source
  rw [ofSourceFrom, show uncommentFrom .code (l.lowered lines) source = _ from left]
  apply relocateOutcome_bind
  intro code
  exact scanFrom_eq_iff.mpr ((scanned_scanFrom l code).lowered lines)

end Lexeme

/-! ### Programs -/

theorem Token.ofSourceFrom_lowered (lines : Nat) (l : Location) (source : Text) :
    ofSourceFrom (l.lowered lines) source =
      lowerOutcome lines (List.map (Token.relocated (Location.lowered lines)))
        (ofSourceFrom l source) := by
  unfold ofSourceFrom
  rw [Lexeme.ofSourceFrom_lowered]
  apply relocateOutcome_bind
  intro xs
  exact ofLexemes_relocated (Location.lowered lines) xs

namespace Program

/-- A program is read alike some lines further down.  Its refusals are the same, at places that
are that much lower. -/
theorem ofSourceFrom_lowered (lines : Nat) (l : Location) (source : Text) :
    ofSourceFrom Grammar.spl1 (l.lowered lines) source =
      lowerOutcome lines id (ofSourceFrom Grammar.spl1 l source) := by
  unfold ofSourceFrom
  rw [Token.ofSourceFrom_lowered]
  apply relocateOutcome_bind
  intro ts
  exact ofTokens_relocated (Location.lowered lines) ts

/-! ### Two texts -/

/-- Only the last line of two texts together is ended, and that is the last line of the second
unless it is empty. -/
theorem closeLine_append {b : Text} (nonempty : b ≠ []) (a : Text) :
    closeLine (a ++ b) = a ++ closeLine b := by
  unfold closeLine
  rw [List.getLast?_append_of_ne_nil a nonempty]
  split
  · rfl
  · rw [List.append_assoc]

/-- A program on lines of its own leaves no line, literal, comment or statement open.  So what
follows begins as if at the start of a text. -/
theorem ofSourceFrom_line {g : Grammar} {a : Text} {program : Program}
    (read : ofSource g a = .ok program) :
    ofSourceFrom g .start (a ++ ['\n']) = .ok program := by
  rw [ofSource_eq] at read
  by_cases ended : a.getLast? = some '\n'
  · rw [closeLine, if_pos ended] at read
    exact ofSourceFrom_append_layout read (.space rfl .nil)
  · rwa [closeLine, if_neg ended] at read

/-- What follows the lines of a program is read as if it stood alone, but for its
locations. -/
theorem ofSource_lines_append {a : Text} {program : Program}
    (first : ofSourceFrom Grammar.spl1 .start (a ++ ['\n']) = .ok program) (b : Text) :
    ofSource Grammar.spl1 (a ++ ['\n'] ++ b) =
      (lowerOutcome (a.count '\n' + 1) id (ofSource Grammar.spl1 b)).map (program ++ ·) := by
  -- An empty second text gets a newline when it stands alone, but not behind the first.
  cases b with
  | nil =>
      rw [List.append_nil, ofSource_of_ofSourceFrom first]
      show _ = Except.ok (program ++ [])
      rw [List.append_nil]
  | cons c b =>
      rw [ofSource_eq, closeLine_append (List.cons_ne_nil c b), ofSourceFrom_append first,
        Location.start_past_line, ofSourceFrom_lowered, ← ofSource_eq]

/-- The second of two texts is read as if it stood alone, but for its locations.  The first is a
program on lines of its own. -/
theorem ofSource_append_eq {a : Text} {program : Program}
    (read : ofSource Grammar.spl1 a = .ok program) (b : Text) :
    ofSource Grammar.spl1 (a ++ ['\n'] ++ b) =
      (lowerOutcome (a.count '\n' + 1) id (ofSource Grammar.spl1 b)).map (program ++ ·) :=
  ofSource_lines_append (ofSourceFrom_line read) b

/-- **Interpretation is compositional.**  Behind an accepted text and a newline, an
accepted text adds its program, and a refused one is refused with the same diagnostic,
as many lines further down as the first text and the newline take. -/
theorem ofSource_append (v : Grammar.Version) {a : Text} {pa : Program}
    (read : ofSource v.grammar a = .ok pa) (b : Text) :
    (∀ pb, ofSource v.grammar b = .ok pb →
        ofSource v.grammar (a ++ ['\n'] ++ b) = .ok (pa ++ pb)) ∧
      ∀ d, ofSource v.grammar b = .error d →
        ofSource v.grammar (a ++ ['\n'] ++ b) =
          .error { d with location := ⟨d.location.line + (a.count '\n' + 1),
                                       d.location.character⟩ } := by
  rw [Grammar.Version.grammar_eq] at read ⊢
  have whole := ofSource_append_eq read b
  constructor
  · intro pb second
    rw [whole, second]
    rfl
  · intro d second
    rw [whole, second]
    rfl

/-- A text with a comment on its last line, and one with a quote that is never closed. -/
theorem ofSource_append_open_quote :
    ofSource Grammar.spl2 "QUIT;\n# bye" = .ok [.quit] ∧
      ofSource Grammar.spl2 "QUIT;\n \"" = .error (.endOfInput .tokenization ⟨2, 2⟩) ∧
      ofSource Grammar.spl2 (("QUIT;\n# bye" : Text) ++ ['\n'] ++ ("QUIT;\n \"" : Text)) =
        .error (.endOfInput .tokenization ⟨4, 2⟩) := by
  have first : ofSource Grammar.Version.spl2.grammar "QUIT;\n# bye" = .ok [.quit] := by
    decide +kernel
  have second : ofSource Grammar.Version.spl2.grammar "QUIT;\n \"" =
      .error (.endOfInput .tokenization ⟨2, 2⟩) := by
    decide +kernel
  exact ⟨first, second, (ofSource_append .spl2 first _).2 _ second⟩

end Program

end Pizzeria
