import Pizzeria.Proofs.Capitals
import Pizzeria.Proofs.Forms
import Pizzeria.Proofs.Reading

/-!
# Programs in either case

The case of letters makes no difference to a program, save for the names that strings give.
Two texts are followed side by side through every step of reading: comments are left out
at the same places, lexemes of one kind are cut at the same places, their values are equal
but for the content of strings, and the same rule builds a statement from them.  A fault
that one text has is found in the other one by the same step, at the same place.

## Main Definitions

* `Diagnostic.SameFault` — diagnostics that agree in kind, stage and location.
* `Lexeme.Alike`, `Token.Alike` — equal up to the case of letters.
* `Token.Value.capitals`, `Statement.capitals` — with every string in capitals.

## Main Results

* `Zone.kept_alike`, `Lexeme.scanFrom_alike`, `Lexeme.decode_alike`,
  `Grammar.statement_alike`, `Program.ofTokens_alike` — each step treats texts that are
  alike alike.
-/

namespace Pizzeria

/-! ### Reports -/

/-- The diagnostics may differ in the text that they cite, and in nothing else. -/
structure Diagnostic.SameFault (d e : Diagnostic) : Prop where
  kind : d.kind = e.kind
  stage : d.stage = e.stage
  location : d.location = e.location

theorem Diagnostic.SameFault.refl (d : Diagnostic) : d.SameFault d := ⟨rfl, rfl, rfl⟩

/-- The outcomes are the same fault, or answers that `R` relates. -/
abbrev Diagnostic.SameOutcome {α : Type} (R : α → α → Prop) :
    Except Diagnostic α → Except Diagnostic α → Prop :=
  Except.Rel Diagnostic.SameFault R

open Diagnostic

/-! ### Places -/

namespace Location

/-- A character moves the location alike in either case; only newlines are special, and these are
no letters. -/
theorem after_same {c d : Char} (same : SameLetter c d) (l : Location) : l.after c = l.after d := by
  refine same.congr l.after (x := ⟨l.line, l.character + 1⟩) fun e letter => ?_
  rw [after, if_neg]
  rintro rfl
  exact absurd letter (by decide)

/-- Texts that are alike are equally long and have their newlines at the same places.  So
everything in them stands at the same location. -/
theorem past_alike {a b : Text} (alike : Text.Alike a b) (l : Location) : l.past a = l.past b := by
  induction alike generalizing l with
  | nil => rfl
  | cons same _ ih => rw [past_cons, past_cons, after_same same, ih]

end Location

/-! ### Comments -/

/-- No closer is a letter; a literal that is closed in one text is closed in the other. -/
theorem Lexeme.isLetter_eq_false_of_closer {opener closer : Char} {kind : Token.Kind}
    (opens : bracket? opener = some (closer, kind)) : isLetter closer = false := by
  rcases bracket?_cases opens with ⟨-, rfl, -⟩ | ⟨-, rfl, -⟩ | ⟨-, rfl, -⟩ | ⟨-, rfl, -⟩ <;> rfl

namespace Zone

/-- No letter ends the zone. -/
def Plain (zone : Zone) : Prop := ∀ closer, zone = literal closer → isLetter closer = false

/-- A zone that waits for no letter goes on to one that waits for none.  Every zone that a text
leads to is plain, since openers have closers that are no letters. -/
theorem Plain.after {zone : Zone} (plain : zone.Plain) (l : Location) (c : Char) :
    (zone.after l c).Plain := by
  intro closer behind
  cases zone with
  | code =>
      rw [Zone.after] at behind
      split at behind
      · cases behind
      · split at behind
        · rename_i opens
          cases behind
          exact Lexeme.isLetter_eq_false_of_closer opens
        · cases behind
  | literal _ =>
      rw [Zone.after] at behind
      split at behind
      · cases behind
      · exact plain closer behind
  | comment _ =>
      rw [Zone.after] at behind
      split at behind <;> cases behind

/-- The zone behind a character does not depend on its case, if the closer that is due is no
letter. -/
theorem after_same {zone : Zone} (plain : zone.Plain) {c d : Char} (same : SameLetter c d)
    (l : Location) : zone.after l c = zone.after l d := by
  have hash : c = '#' ↔ d = '#' := same.eq_iff rfl
  have newline : c = '\n' ↔ d = '\n' := same.eq_iff rfl
  cases zone with
  | code => simp only [Zone.after, hash, same.bracket?_eq]
  | literal closer => simp only [Zone.after, same.eq_iff (plain closer rfl)]
  | comment start => simp only [Zone.after, newline]

theorem comments_same (zone : Zone) {c d : Char} (same : SameLetter c d) :
    zone.comments c = zone.comments d := by
  have hash : c = '#' ↔ d = '#' := same.eq_iff rfl
  have newline : c = '\n' ↔ d = '\n' := same.eq_iff rfl
  rw [Bool.eq_iff_iff]
  cases zone with
  | code => simp only [comments, beq_iff_eq, hash]
  | literal closer => rfl
  | comment start => simp only [comments, bne_iff_ne, ne_eq, newline]

/-- Comments are left out at the same places, so that what is left of both texts is alike.  The
induction carries the zone, which has to be plain for the two to stay together. -/
theorem kept_alike {zone : Zone} (plain : zone.Plain) {a b : Text} (alike : Text.Alike a b)
    (l : Location) : Text.Alike (zone.kept l a) (zone.kept l b) := by
  induction alike generalizing zone l with
  | nil => exact .nil
  | @cons c d a b same _ ih =>
      rw [kept, kept, comments_same zone same, after_same plain same, Location.after_same same]
      have rest := ih (plain.after l d) (l.after d)
      split
      · exact rest
      · exact .cons same rest

end Zone

theorem Program.closeLine_alike {a b : Text} (alike : Text.Alike a b) :
    Text.Alike (closeLine a) (closeLine b) := by
  have last : a.getLast? = some '\n' ↔ b.getLast? = some '\n' := by
    rw [List.getLast?_eq_head?_reverse, List.getLast?_eq_head?_reverse]
    have reversed := List.rel_reverse alike
    generalize a.reverse = left, b.reverse = right at reversed
    cases reversed with
    | nil => exact Iff.rfl
    | cons same _ =>
        rw [List.head?_cons, List.head?_cons, Option.some_inj, Option.some_inj]
        exact same.eq_iff rfl
  unfold closeLine
  by_cases ended : a.getLast? = some '\n'
  · rw [if_pos ended, if_pos (last.mp ended)]
    exact alike
  · rw [if_neg ended, if_neg (mt last.mpr ended)]
    exact List.rel_append alike (.cons rfl .nil)

/-! ### Lexemes -/

namespace Lexeme

/-- The lexemes are of one kind, at one place, and alike. -/
structure Alike (x y : Lexeme) : Prop where
  kind : x.kind = y.kind
  location : x.location = y.location
  text : Text.Alike x.text y.text

/-- A character that begins no token is no letter, so it is the same character in both texts. -/
theorem Stray.same {c d : Char} (stray : Stray c) (same : SameLetter c d) : Stray d := by
  obtain rfl | ⟨letter, -⟩ := same.eq_or_letters
  · exact stray
  · rw [stray.notLetter] at letter
    cases letter

/-- A lexeme is cut off what is alike.  The lexeme that corresponds has the same kind and the same
length, and what follows both is alike. -/
theorem Cut.alike {kind : Token.Kind} {w w' rest rest' : Text} (cut : Cut kind w rest)
    (words : Text.Alike w w') (rests : Text.Alike rest rest') : Cut kind w' rest' := by
  cases cut with
  | word letter inside stops =>
      obtain _ | ⟨first, words⟩ := words
      obtain _ | ⟨stop, -⟩ := rests
      exact .word (first.isLetter_eq ▸ letter) (Text.Alike.inside words inside)
        (stop.endsWord_eq ▸ stops)
  | @literal opener closer kind body rest opens inside =>
      obtain _ | ⟨first, words⟩ := words
      obtain ⟨body', last, rfl, bodies, ends⟩ := Text.Alike.exists_append words
      obtain _ | ⟨ended, _ | _⟩ := ends
      have other := isLetter_eq_false_of_closer opens
      obtain rfl := (ended.eq_iff other).mp rfl
      exact .literal (first.bracket?_eq ▸ opens) (bodies.notMem other inside)
  | delimiter =>
      obtain _ | ⟨first, _ | _⟩ := words
      obtain rfl := (first.eq_iff rfl).mp rfl
      exact .delimiter

/-- What is alike is stuck at the same place, for the same reason.  The text of the stray word is
quoted as it is written, so the diagnostics may differ in it. -/
theorem Stuck.alike {l : Location} {a b : Text} {d : Diagnostic} (stuck : Stuck l a d)
    (alike : Text.Alike a b) : ∃ e, Stuck l b e ∧ d.SameFault e := by
  cases stuck with
  | word letter inside =>
      obtain _ | ⟨first, words⟩ := alike
      exact ⟨_, .word (first.isLetter_eq ▸ letter) (Text.Alike.inside words inside), .refl _⟩
  | literal opens inside =>
      obtain _ | ⟨first, bodies⟩ := alike
      have other := isLetter_eq_false_of_closer opens
      exact ⟨_, .literal (first.bracket?_eq ▸ opens) (Text.Alike.notMem other bodies inside),
        .refl _⟩
  | stray stray inside stops =>
      obtain _ | ⟨first, words⟩ := alike
      obtain ⟨w, rest, rfl, front, back⟩ := Text.Alike.exists_append words
      obtain _ | ⟨stop, _⟩ := back
      exact ⟨_, .stray (stray.same first) (front.inside inside) (stop.endsWord_eq ▸ stops),
        ⟨rfl, rfl, rfl⟩⟩
  | lastStray stray inside =>
      obtain _ | ⟨first, words⟩ := alike
      exact ⟨_, .lastStray (stray.same first) (Text.Alike.inside words inside), .refl _⟩

/-- Each step of scanning has a counterpart in what is alike.  The induction is on the steps,
which are told apart by characters that have no other case. -/
theorem Scanned.alike {l : Location} {a b : Text} {r : Except Diagnostic (List Lexeme)}
    (run : Scanned l a r) (alike : Text.Alike a b) :
    ∃ r', Scanned l b r' ∧ SameOutcome (List.Forall₂ Alike) r r' := by
  induction run generalizing b with
  | nil =>
      cases alike
      exact ⟨_, .nil, .ok .nil⟩
  | @space l c rest r space _ ih =>
      obtain _ | ⟨same, rests⟩ := alike
      obtain ⟨r', run, outcome⟩ := ih rests
      rw [Location.after_same same] at run
      exact ⟨r', .space (same.isSpace_eq ▸ space) run, outcome⟩
  | @cut l kind w rest r cut _ ih =>
      obtain ⟨w', rest', rfl, words, rests⟩ := Text.Alike.exists_append alike
      obtain ⟨r', run, outcome⟩ := ih rests
      rw [Location.past_alike words] at run
      refine ⟨_, .cut (cut.alike words rests) run, outcome.map fun _ _ others => ?_⟩
      exact .cons ⟨rfl, rfl, words⟩ others
  | stuck stuck =>
      obtain ⟨e, stuck', same⟩ := stuck.alike alike
      exact ⟨_, .stuck stuck', .error same⟩

/-- Lexemes are cut at the same places.  They are of the same kinds, and their texts are alike. -/
theorem scanFrom_alike {a b : Text} (alike : Text.Alike a b) (l : Location) :
    SameOutcome (List.Forall₂ Alike) (scanFrom ⟨a, 0, l⟩) (scanFrom ⟨b, 0, l⟩) := by
  obtain ⟨r, run, outcome⟩ := (scanned_scanFrom l a).alike alike
  rw [scanFrom_eq_iff (c := ⟨b, 0, l⟩) |>.mpr run]
  exact outcome

end Lexeme

/-! ### Tokens -/

/-- The value, with the content of a string in capitals. -/
def Token.Value.capitals : Token.Value → Token.Value
  | keyword word => keyword word
  | integer number => integer number
  | string content => string content.upper
  | pizza p => pizza p
  | element e => element e
  | delimiter => delimiter

/-- The tokens stand at one place, and only the content of a string can differ in case. -/
structure Token.Alike (t u : Token) : Prop where
  value : t.value.capitals = u.value.capitals
  location : t.location = u.location

namespace Lexeme

/-- A refusal names the place of the lexeme and cites it.  What it cites may differ in case, and
the rest is the same. -/
theorem refusal_alike {x y : Lexeme} (alike : x.Alike y) (kind : Diagnostic.Kind)
    (message message' : Text) : (x.refusal kind message).SameFault (y.refusal kind message') :=
  ⟨rfl, rfl, alike.location⟩

/-- Lexemes that are alike have the same value but for the names in it: only a string keeps the
case of its letters. -/
theorem value_alike {x y : Lexeme} (alike : x.Alike y) :
    SameOutcome (fun v w => v.capitals = w.capitals) x.value y.value := by
  have interiors := alike.text.interior
  unfold value
  rw [← alike.kind]
  cases x.kind with
  | keyword =>
      dsimp only
      rw [show Keyword.ofWord? x.text = Keyword.ofWord? y.text from
        findWord_congr _ alike.text.upper_eq]
      cases Keyword.ofWord? y.text with
      | some word => exact .ok rfl
      | none => exact .error (refusal_alike alike _ _ _)
  | integer =>
      dsimp only
      rw [Integer.read_alike interiors.trim]
      cases Integer.read y.text.interior.trim with
      | ok n => exact .ok rfl
      | error fault => exact .error (refusal_alike alike _ _ _)
  | string =>
      dsimp only
      rw [interiors.all_eq fun _ _ same => same.isAscii_eq]
      refine .ite Iff.rfl (.ok ?_) (.error (refusal_alike alike _ _ _))
      exact congrArg Token.Value.string interiors.upper_eq
  | pizza =>
      have read := Pizza.ofText_alike interiors
      generalize Pizza.ofText x.text.interior = left, Pizza.ofText y.text.interior = right at read
      cases read with
      | ok same => exact .ok (congrArg Token.Value.pizza same)
      | error same => exact .error ⟨same, rfl, alike.location⟩
  | element =>
      have read := Element.ofText_alike interiors
      generalize Element.ofText x.text.interior = left,
        Element.ofText y.text.interior = right at read
      cases read with
      | ok same => exact .ok (congrArg Token.Value.element same)
      | error same => exact .error ⟨same, rfl, alike.location⟩
  | delimiter => exact .ok rfl

theorem decode_alike {x y : Lexeme} (alike : x.Alike y) :
    SameOutcome Token.Alike x.decode y.decode :=
  (value_alike alike).map fun _ _ same => ⟨same, alike.location⟩

end Lexeme

/-! ### Statements -/

/-- The reference, with a name in capitals. -/
def Specifier.capitals : Specifier → Specifier
  | index number => index number
  | name t => name t.upper
  | replica p => replica p

/-- The statement, with every name in capitals. -/
def Statement.capitals : Statement → Statement
  | startSession name reserved => startSession name.upper reserved
  | nameSession name => nameSession name.upper
  | endSession => endSession
  | saveSession file => saveSession file.upper
  | loadSession file => loadSession file.upper
  | addPizza pizza name => addPizza pizza name.upper
  | removePizza order => removePizza order.capitals
  | viewPizza order details => viewPizza (order.map Specifier.capitals) details
  | alterPizza order alteration => alterPizza order.capitals alteration
  | votePizza order votes => votePizza order.capitals votes
  | selectTop count => selectTop count
  | resetVotes => resetVotes
  | resetSession => resetSession
  | quit => quit

namespace Grammar

/-- A reference by name becomes a reference by the name in capitals.  Numbers and pizzas have no
case. -/
theorem refers_capitals {v : Token.Value} {order : Specifier} (refers : v.Refers order) :
    v.capitals.Refers order.capitals := by
  cases refers with
  | index n => exact .index n
  | name t => exact .name t.upper
  | replica p => exact .replica p

/-- Names in capitals give the same form of statement, with its names in capitals.  This says that
no rule looks into a string. -/
theorem Form.capitals {vs : List Token.Value} {s : Statement} (form : Form vs s) :
    Form (vs.map Token.Value.capitals) s.capitals := by
  cases form with
  | startSession => exact .startSession
  | startSessionAs name => exact .startSessionAs name.upper
  | nameSession name => exact .nameSession name.upper
  | endSession => exact .endSession
  | saveSession file => exact .saveSession file.upper
  | loadSession file => exact .loadSession file.upper
  | addPizza pizza => exact .addPizza pizza
  | addPizzaAs pizza name => exact .addPizzaAs pizza name.upper
  | removePizza refers => exact .removePizza (refers_capitals refers)
  | viewPizza refers => exact .viewPizza (refers_capitals refers)
  | viewPizzas => exact .viewPizzas
  | viewDetails refers => exact .viewDetails (refers_capitals refers)
  | viewAllDetails => exact .viewAllDetails
  | vote refers => exact .vote (refers_capitals refers)
  | voteTimes refers votes => exact .voteTimes (refers_capitals refers) votes
  | subvert refers => exact .subvert (refers_capitals refers)
  | selectTop count => exact .selectTop count
  | resetVotes => exact .resetVotes
  | resetSession => exact .resetSession
  | alter refers changes => exact .alter (refers_capitals refers) changes
  | quit => exact .quit

theorem Misfit.capitals {vs : List Token.Value} {expected : Element.Category}
    (misfit : Misfit vs expected) : Misfit (vs.map Token.Value.capitals) expected := by
  cases misfit with
  | alter refers expects differs => exact .alter (refers_capitals refers) expects differs

/-- A slot does not see what is in a string, so it admits a value in one case if it does in the
other. -/
theorem admits_capitals_iff {slot : Slot} {v : Token.Value} :
    slot.Admits v.capitals ↔ slot.Admits v := by
  have kind : v.capitals.kind = v.kind := by cases v <;> rfl
  cases slot with
  | word w =>
      show v.capitals = .keyword w ↔ v = .keyword w
      cases v <;> simp [Token.Value.capitals]
  | kind k =>
      show v.capitals.kind = k ↔ v.kind = k
      rw [kind]
  | specifier =>
      show (∃ order, v.capitals.Refers order) ↔ ∃ order, v.Refers order
      rw [← Token.Value.isSpecifier_kind_iff, kind, Token.Value.isSpecifier_kind_iff]

/-- The same rules have slots for the values in either case.  Hence what fits no rule is refused
in both texts. -/
theorem fits_capitals_iff {g : Grammar} {vs : List Token.Value} :
    g.Fits (vs.map Token.Value.capitals) ↔ g.Fits vs := by
  unfold Fits
  simp only [List.forall₂_map_right_iff, admits_capitals_iff]

/-- The same rule builds the same statement, but for names, or refuses tokens at the same
place.  What a rule makes of values is settled by the values in capitals. -/
theorem statement_alike {ts us : List Token} (alike : List.Forall₂ Token.Alike ts us) :
    SameOutcome (fun s s' => s.capitals = s'.capitals) (spl1.statement ts)
      (spl1.statement us) := by
  have values : (ts.map Token.value).map Token.Value.capitals =
      (us.map Token.value).map Token.Value.capitals := by
    rw [List.map_map, List.map_map]
    exact List.forall₂_iff_map_eq.mp (alike.imp fun _ _ same => same.value)
  have places : ts.map Token.location = us.map Token.location :=
    List.forall₂_iff_map_eq.mp (alike.imp fun _ _ same => same.location)
  have fits : spl1.Fits (ts.map Token.value) ↔ spl1.Fits (us.map Token.value) := by
    rw [← fits_capitals_iff, values, fits_capitals_iff]
  cases read : spl1.statement ts with
  | ok s =>
      have form := statement_eq_ok_iff.mp read
      cases read' : spl1.statement us with
      | ok s' =>
          have form' := statement_eq_ok_iff.mp read'
          exact .ok (form.capitals.unique (values ▸ form'.capitals))
      | error e =>
          rcases statement_eq_error_iff.mp read' with ⟨_, _, _, -, -, misfit, -⟩ | ⟨unfit, -⟩
          · exact absurd (values ▸ misfit.capitals) (form.capitals.not_misfit _)
          · exact absurd (fits.mp form.fits) unfit
  | error d =>
      cases read' : spl1.statement us with
      | ok s' =>
          have form := statement_eq_ok_iff.mp read'
          rcases statement_eq_error_iff.mp read with ⟨_, _, _, -, -, misfit, -⟩ | ⟨unfit, -⟩
          · exact absurd (values ▸ misfit.capitals) (form.capitals.not_misfit _)
          · exact absurd (fits.mpr form.fits) unfit
      | error e =>
          refine .error ?_
          rcases statement_eq_error_iff.mp read with
            ⟨t, expected, found, at5, -, misfit, rfl⟩ | ⟨unfit, rfl⟩ <;>
          rcases statement_eq_error_iff.mp read' with
            ⟨t', expected', found', at5', -, misfit', rfl⟩ | ⟨unfit', rfl⟩
          · refine ⟨rfl, rfl, ?_⟩
            have place := congrArg (·[5]?) places
            simp only [List.getElem?_map, at5, at5'] at place
            exact Option.some.inj place
          · exact absurd (fits.mp misfit.fits) unfit'
          · exact absurd (fits.mpr misfit'.fits) unfit
          · refine ⟨rfl, rfl, ?_⟩
            show (ts.head?.map Token.location).getD .start =
              (us.head?.map Token.location).getD .start
            rw [← List.head?_map, ← List.head?_map, places]

end Grammar

/-! ### Programs -/

namespace Program

/-- Semicolons correspond to semicolons, which is why statements end at the same tokens. -/
theorem isDelimiter_alike {t u : Token} (alike : t.Alike u) : t.isDelimiter = u.isDelimiter := by
  have delimiter (v : Token.Value) : v = .delimiter ↔ v.capitals = .delimiter := by
    cases v <;> simp [Token.Value.capitals]
  rw [Bool.eq_iff_iff]
  show (t.value == .delimiter) = true ↔ (u.value == .delimiter) = true
  rw [beq_iff_eq, beq_iff_eq, delimiter, alike.value, ← delimiter]

/-- Statements end at the same tokens. -/
theorem segments_alike {ts us : List Token} (alike : List.Forall₂ Token.Alike ts us) :
    List.Forall₂ (List.Forall₂ Token.Alike) (segments ts).1 (segments us).1 ∧
      List.Forall₂ Token.Alike (segments ts).2 (segments us).2 := by
  induction alike with
  | nil => exact ⟨.nil, .nil⟩
  | @cons t u ts us same _ ih =>
      obtain ⟨closed, rest⟩ := ih
      have first := isDelimiter_alike same
      cases inside : t.isDelimiter with
      | true =>
          rw [segments_of_delimiter inside, segments_of_delimiter (first ▸ inside)]
          exact ⟨.cons .nil closed, rest⟩
      | false =>
          cases left : (segments ts).1 with
          | nil =>
              rw [left] at closed
              have right : (segments us).1 = [] := List.forall₂_nil_left_iff.mp closed
              rw [segments_of_open inside left, segments_of_open (first ▸ inside) right]
              exact ⟨.nil, .cons same rest⟩
          | cons segment others =>
              rw [left] at closed
              obtain ⟨segment', others', segments, tail, right⟩ :=
                List.forall₂_cons_left_iff.mp closed
              rw [segments_of_closed inside left, segments_of_closed (first ▸ inside) right]
              exact ⟨.cons (.cons same segments) tail, rest⟩

/-- A program is built alike from tokens that are alike.  The first statement that is refused is
the same one in both. -/
theorem ofTokens_alike {ts us : List Token} (alike : List.Forall₂ Token.Alike ts us) :
    SameOutcome (List.Forall₂ fun s s' => s.capitals = s'.capitals) (ofTokens Grammar.spl1 ts)
      (ofTokens Grammar.spl1 us) := by
  obtain ⟨closed, rest⟩ := segments_alike alike
  cases left : (segments ts).2 with
  | cons t others =>
      rw [left] at rest
      obtain ⟨u, others', same, -, right⟩ := List.forall₂_cons_left_iff.mp rest
      rw [ofTokens_of_open left, ofTokens_of_open right]
      exact .error ⟨rfl, rfl, same.location⟩
  | nil =>
      rw [left] at rest
      have right : (segments us).2 = [] := List.forall₂_nil_left_iff.mp rest
      rw [ofTokens_of_closed left, ofTokens_of_closed right]
      have filled := List.rel_filter (p := fun segment => !segment.isEmpty)
        (q := fun segment => !segment.isEmpty) ?_ closed
      · exact Except.Rel.mapM filled fun _ _ segments => Grammar.statement_alike segments
      · intro segment segment' segments
        cases segments <;> exact Iff.rfl

/-- A program is read alike from texts that are alike. -/
theorem ofSource_sameOutcome {a b : Text} (alike : Text.Alike a b) :
    SameOutcome (List.Forall₂ fun s s' => s.capitals = s'.capitals)
      (ofSource Grammar.spl1 a) (ofSource Grammar.spl1 b) := by
  have scans (source : Text) : Lexeme.ofSourceFrom .start (closeLine source) =
      Lexeme.scanFrom ⟨Zone.code.kept .start (closeLine source), 0, .start⟩ := by
    rw [Lexeme.ofSourceFrom,
      show uncommentFrom .code .start (closeLine source) = _ from uncomment_closeLine source]
    rfl
  have plain : Zone.code.Plain := by
    intro closer opened
    cases opened
  have code := Zone.kept_alike plain (closeLine_alike alike) .start
  have lexemes := Lexeme.scanFrom_alike code .start
  rw [← scans, ← scans] at lexemes
  rw [ofSource_eq, ofSource_eq]
  refine Except.Rel.bind (lexemes.bind fun _ _ same => ?_) fun _ _ => ofTokens_alike
  exact Except.Rel.mapM same fun _ _ => Lexeme.decode_alike

/-- **The case of letters does not matter.**  Texts that are equal up to the case of letters are
both refused, with the same kind of fault, in the same stage and at the same place; or both
are programs, and these are equal up to the case of letters in names. -/
theorem ofSource_alike (v : Grammar.Version) {a b : Text}
    (alike : List.Forall₂ (fun c d => c.toUpper = d.toUpper) a b) :
    (∃ d e, ofSource v.grammar a = .error d ∧ ofSource v.grammar b = .error e ∧
        d.kind = e.kind ∧ d.stage = e.stage ∧ d.location = e.location) ∨
      ∃ p q, ofSource v.grammar a = .ok p ∧ ofSource v.grammar b = .ok q ∧
        p.map Statement.capitals = q.map Statement.capitals := by
  have outcome := ofSource_sameOutcome alike
  rw [Grammar.Version.grammar_eq]
  generalize ofSource Grammar.spl1 a = left, ofSource Grammar.spl1 b = right at outcome ⊢
  cases outcome with
  | ok same => exact Or.inr ⟨_, _, rfl, rfl, List.forall₂_iff_map_eq.mp same⟩
  | error same => exact Or.inl ⟨_, _, rfl, rfl, same.kind, same.stage, same.location⟩

/-- Keywords, literals, a comment and names in some case. -/
def someCase : Text := "Add Pizza [{Left:ham},{bbq}] as \"It\"; # x\nview pizza \"it\";"

/-- The same in another case. -/
def otherCase : Text := "ADD pizza [{lEFT:HAM},{Bbq}] AS \"IT\"; # X\nVIEW PIZZA \"It\";"

theorem ofSource_alike_names :
    List.Forall₂ (fun c d => c.toUpper = d.toUpper) someCase otherCase ∧
      ∃ p q, ofSource Grammar.spl2 someCase = .ok p ∧ ofSource Grammar.spl2 otherCase = .ok q ∧
        p ≠ q ∧ p.map Statement.capitals = q.map Statement.capitals := by
  have alike : List.Forall₂ (fun c d => c.toUpper = d.toUpper) someCase otherCase :=
    List.forall₂_iff_map_eq.mpr (by decide +kernel)
  have accepted : (ofSource Grammar.spl2 someCase).isOk = true := by decide +kernel
  have differ : ofSource Grammar.spl2 someCase ≠ ofSource Grammar.spl2 otherCase := by
    decide +kernel
  refine ⟨alike, ?_⟩
  rcases ofSource_alike .spl2 alike with ⟨d, -, refused, -⟩ | ⟨p, q, read, read', same⟩
  · rw [show ofSource Grammar.spl2 someCase = .error d from refused] at accepted
    cases accepted
  · refine ⟨p, q, read, read', ?_, same⟩
    rintro rfl
    exact differ (read.trans read'.symm)

end Program

end Pizzeria
