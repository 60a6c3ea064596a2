import Pizzeria.Proofs.Forms
import Pizzeria.Proofs.Literals
import Pizzeria.Proofs.Numerals
import Pizzeria.Proofs.Reading
import Pizzeria.Script

/-!
# The written form of programs

Which programs have a source text at all.  A string between quotes has no quote in it
and is refused unless it is ASCII, a pizza literal cannot repeat an arrangement, and
no statement says how much room a session sets aside.  Nothing else is lost: a program
that respects this is read back from its rendering.

## Main Definitions

* `Text.Quotable`, `Statement.WellFormed`, `Program.WellFormed` — what can be written.
* `Token.Value.Written` — a text is read as a value wherever it stands.

## Main Results

* `Statement.wellFormed_of_form` — statements of sound values are well-formed.
* `Program.ofSourceFrom_render` — a well-formed program is read from its rendering.
-/

namespace Pizzeria

/-! ### Well-formed programs -/

/-- The text can stand between quotes. -/
def Text.Quotable (t : Text) : Prop := t.all isAscii = true ∧ '"' ∉ t

/-- The reference can be written. -/
def Specifier.WellFormed : Specifier → Prop
  | index _ => True
  | name text => text.Quotable
  | replica pizza => pizza.toppings.Nodup

/-- The statement can be written. -/
def Statement.WellFormed : Statement → Prop
  | startSession name reserved => name.Quotable ∧ reserved = 30
  | nameSession name => name.Quotable
  | saveSession file => file.Quotable
  | loadSession file => file.Quotable
  | addPizza pizza name => pizza.toppings.Nodup ∧ name.Quotable
  | removePizza order => order.WellFormed
  | viewPizza order _ => ∀ o ∈ order, o.WellFormed
  | alterPizza order _ => order.WellFormed
  | votePizza order _ => order.WellFormed
  | endSession | selectTop _ | resetVotes | resetSession | quit => True

/-- Every statement of the program can be written. -/
def Program.WellFormed (program : Program) : Prop := ∀ s ∈ program, s.WellFormed

/-! ### What is read is well-formed -/

namespace Token.Value

/-- The value can be the value of a token. -/
def Sound : Token.Value → Prop
  | string content => content.Quotable
  | pizza p => p.toppings.Nodup
  | keyword _ | integer _ | element _ | delimiter => True

theorem Refers.wellFormed {v : Token.Value} {order : Specifier} (refers : v.Refers order)
    (sound : v.Sound) : order.WellFormed := by
  cases refers with
  | index number => trivial
  | name content => exact sound
  | replica pizza => exact sound

end Token.Value

/-- The content of a string lexeme is what stands between two quotes.  It has none itself, so it
can be put between quotes again. -/
theorem Lexeme.Cut.quote_notMem_interior {w rest : Text} (cut : Cut .string w rest) :
    '"' ∉ w.interior := by
  generalize string : Token.Kind.string = kind at cut
  cases cut with
  | word _ _ _ => cases string
  | delimiter => cases string
  | literal opens inside =>
      rw [Text.interior_enclosed]
      rcases bracket?_cases opens with ⟨-, -, h⟩ | ⟨-, -, h⟩ | ⟨-, -, h⟩ | ⟨-, rfl, -⟩
      · exact absurd (string.trans h) (by decide)
      · exact absurd (string.trans h) (by decide)
      · exact absurd (string.trans h) (by decide)
      · exact inside

/-- Decoding leads to sound values only: strings that can be quoted, and pizzas without a repeated
arrangement. -/
theorem Lexeme.sound_of_decode {x : Lexeme} {rest : Text} {t : Token}
    (cut : Cut x.kind x.text rest) (decoded : x.decode = .ok t) : t.value.Sound := by
  obtain ⟨v, meaning, rfl⟩ := Except.map_eq_ok_iff.mp decoded
  show v.Sound
  rcases x with ⟨kind, place, text⟩
  cases kind with
  | keyword =>
      simp only [Lexeme.value] at meaning
      split at meaning <;> cases meaning
      trivial
  | integer =>
      simp only [Lexeme.value] at meaning
      split at meaning <;> cases meaning
      trivial
  | element =>
      simp only [Lexeme.value] at meaning
      split at meaning <;> cases meaning
      trivial
  | delimiter =>
      cases meaning
      trivial
  | string =>
      simp only [Lexeme.value] at meaning
      split at meaning
      · rename_i ascii
        cases meaning
        exact ⟨ascii, cut.quote_notMem_interior⟩
      · cases meaning
  | pizza =>
      simp only [Lexeme.value] at meaning
      split at meaning
      · rename_i read
        cases meaning
        exact Pizza.nodup_of_ofText read
      · cases meaning

theorem Token.sound_of_ofSourceFrom {l : Location} {source : Text} {ts : List Token}
    (read : Token.ofSourceFrom l source = .ok ts) : ∀ t ∈ ts, t.value.Sound := by
  intro t mem
  obtain ⟨xs, read, decoded⟩ := Except.bind_eq_ok_iff.mp read
  obtain ⟨x, among, decode⟩ := Except.exists_of_mem_mapM decoded mem
  obtain ⟨rest, cut⟩ := Lexeme.exists_cut_of_ofSourceFrom read among
  exact Lexeme.sound_of_decode cut decode

theorem Text.quotable_empty : Text.Quotable "" := ⟨rfl, List.not_mem_nil⟩

/-- Statements of sound values are well-formed.  What the rules add by themselves, such as the
empty name, is well-formed too. -/
theorem Statement.wellFormed_of_form {vs : List Token.Value} {s : Statement}
    (form : Grammar.Form vs s) (sound : ∀ v ∈ vs, v.Sound) : s.WellFormed := by
  cases form with
  | startSession => exact ⟨Text.quotable_empty, rfl⟩
  | startSessionAs name => exact ⟨sound (.string name) (by simp), rfl⟩
  | nameSession name => exact sound (.string name) (by simp)
  | saveSession file => exact sound (.string file) (by simp)
  | loadSession file => exact sound (.string file) (by simp)
  | addPizza pizza => exact ⟨sound (.pizza pizza) (by simp), Text.quotable_empty⟩
  | addPizzaAs pizza name =>
      exact ⟨sound (.pizza pizza) (by simp), sound (.string name) (by simp)⟩
  | removePizza refers => exact refers.wellFormed (sound _ (by simp))
  | viewPizza refers =>
      rintro o ⟨⟩
      exact refers.wellFormed (sound _ (by simp))
  | viewDetails refers =>
      rintro o ⟨⟩
      exact refers.wellFormed (sound _ (by simp))
  | viewPizzas => exact nofun
  | viewAllDetails => exact nofun
  | vote refers => exact refers.wellFormed (sound _ (by simp))
  | voteTimes refers _ => exact refers.wellFormed (sound _ (by simp))
  | subvert refers => exact refers.wellFormed (sound _ (by simp))
  | alter refers _ => exact refers.wellFormed (sound _ (by simp))
  | endSession | selectTop _ | resetVotes | resetSession | quit => trivial

/-- A program that is read is well-formed.  This is one half of the result: only well-formed
programs have a source. -/
theorem Program.wellFormed_of_ofSourceFrom {l : Location} {source : Text} {program : Program}
    (read : ofSourceFrom Grammar.spl1 l source = .ok program) : program.WellFormed := by
  intro s mem
  obtain ⟨ts, tokens, meaning⟩ := Except.bind_eq_ok_iff.mp read
  obtain ⟨segment, among, built⟩ := exists_of_mem_ofTokens meaning mem
  refine Statement.wellFormed_of_form (Grammar.statement_eq_ok_iff.mp built) ?_
  intro v mem
  obtain ⟨t, inside, rfl⟩ := List.mem_map.mp mem
  exact Token.sound_of_ofSourceFrom tokens t (among inside)

/-! ### Written values -/

namespace Token.Value

/-- The text is one lexeme, and it means the value wherever it stands. -/
def Written (v : Token.Value) (text : Text) : Prop :=
  ∃ kind, Lexeme.Neat kind text ∧ ∀ l, (⟨kind, l, text⟩ : Lexeme).value = .ok v

/-- A value that is written is decoded from its text, wherever this stands. -/
theorem Written.exists_decode {v : Token.Value} {text : Text} (written : v.Written text) :
    ∃ kind, Lexeme.Neat kind text ∧
      ∀ l, (⟨kind, l, text⟩ : Lexeme).decode = .ok ⟨v, l, text⟩ := by
  obtain ⟨kind, neat, meaning⟩ := written
  refine ⟨kind, neat, ?_⟩
  intro l
  rw [Lexeme.decode, meaning]
  rfl

theorem written_keyword (k : Keyword) : (keyword k).Written k.spelling := by
  have letters := List.all_eq_true.mp (Keyword.wordTable.all_isLetter k)
  refine ⟨.keyword, .word (Keyword.wordTable.ne_nil k) letters, ?_⟩
  intro l
  simp only [Lexeme.value, Keyword.ofWord?_spelling]

/-- A literal is written between its opener and its closer, if its body does not have the closer
and means the value.  The four kinds of literal are instances. -/
theorem written_literal {opener closer : Char} {kind : Token.Kind} {body : Text}
    {v : Token.Value} (opens : bracket? opener = some (closer, kind)) (inside : closer ∉ body)
    (meaning : ∀ l, (⟨kind, l, opener :: (body ++ [closer])⟩ : Lexeme).value = .ok v) :
    v.Written (opener :: (body ++ [closer])) :=
  ⟨kind, .literal opens inside, meaning⟩

/-- A string is written between quotes, if it could have been read from between quotes. -/
theorem written_string {t : Text} (quotable : t.Quotable) : (string t).Written t.quoted := by
  show (string t).Written ('"' :: (t ++ ['"']))
  apply written_literal rfl quotable.2
  intro l
  simp only [Lexeme.value, Text.interior_enclosed, quotable.1, if_true]

theorem written_integer (n : Int32) : (integer n).Written (Text.integerLiteral n) := by
  show (integer n).Written ('(' :: (Text.ofInt n.toInt ++ [')']))
  apply written_literal rfl
  · intro mem
    rcases Integer.isDigit_or_eq_of_mem_ofInt mem with digit | sign
    · exact absurd digit (by decide)
    · exact absurd sign (by decide)
  · intro l
    simp only [Lexeme.value, Text.interior_enclosed, Integer.trim_ofInt, Integer.read_ofInt]

/-- A pizza is written as its literal, which is read back only if no arrangement is repeated. -/
theorem written_pizza {p : Pizza} (distinct : p.toppings.Nodup) :
    (pizza p).Written p.literal := by
  show (pizza p).Written ('[' :: (p.literalBody ++ [']']))
  apply written_literal rfl p.closer_notMem_literalBody
  intro l
  simp only [Lexeme.value, Text.interior_enclosed, Pizza.ofText_literalBody distinct]

theorem written_element (e : Element) : (element e).Written e.literal := by
  show (element e).Written ('{' :: (e.body ++ ['}']))
  apply written_literal rfl
  · intro mem
    exact absurd (Element.isClauseMark_eq_false_of_mem_body mem) (by decide)
  · intro l
    simp only [Lexeme.value, Text.interior_enclosed, Element.ofText_body]

/-- A reference that can be written is written as a value that refers alike.  There is one kind of
value for each kind of reference. -/
theorem exists_refers_written {order : Specifier} (wellFormed : order.WellFormed) :
    ∃ v : Token.Value, v.Refers order ∧ v.Written order.render := by
  cases order with
  | index number => exact ⟨_, .index number, written_integer number⟩
  | name text => exact ⟨_, .name text, written_string wellFormed⟩
  | replica p => exact ⟨_, .replica p, written_pizza wellFormed⟩

end Token.Value

/-! ### Written statements -/

/-- The texts are the written forms of the values, one by one. -/
abbrev Token.Value.AllWritten : List Token.Value → List Text → Prop :=
  List.Forall₂ Token.Value.Written

namespace Token

open Value

/-- A part of a statement and the blank behind it are one token.  The blank ends a word, and is
layout behind a literal. -/
theorem ofSourceFrom_part {v : Token.Value} {part : Text} (written : v.Written part)
    (l : Location) : Token.ofSourceFrom l (part ++ [' ']) = .ok [⟨v, l, part⟩] := by
  obtain ⟨kind, neat, decodes⟩ := written.exists_decode
  have ends : kind = .keyword → Lexeme.WordEnds [' '] := fun _ => ⟨' ', [], rfl, Or.inl rfl⟩
  have laid : Lexeme.LaidOut l (part ++ [' ']) [⟨kind, l, part⟩] :=
    .cons neat ends (.done (.space rfl .nil))
  exact ofSourceFrom_eq_ok laid (Except.mapM_cons_eq_ok (decodes l) rfl)

/-- The last part of a statement and the end of its line are one token and a
delimiter. -/
theorem ofSourceFrom_last {v : Token.Value} {part : Text} (written : v.Written part)
    (l : Location) :
    Token.ofSourceFrom l (part ++ [';', '\n']) =
      .ok [⟨v, l, part⟩, ⟨.delimiter, l.past part, [';']⟩] := by
  obtain ⟨kind, neat, decodes⟩ := written.exists_decode
  have ends : kind = .keyword → Lexeme.WordEnds [';', '\n'] :=
    fun _ => ⟨';', ['\n'], rfl, Or.inl rfl⟩
  have delimiter : Lexeme.LaidOut (l.past part) [';', '\n'] [⟨.delimiter, l.past part, [';']⟩] :=
    .cons .delimiter (fun word => by cases word) (.done (.space rfl .nil))
  have laid : Lexeme.LaidOut l (part ++ [';', '\n'])
      [⟨kind, l, part⟩, ⟨.delimiter, l.past part, [';']⟩] :=
    .cons neat ends delimiter
  exact ofSourceFrom_eq_ok laid
    (Except.mapM_cons_eq_ok (decodes l) (Except.mapM_cons_eq_ok rfl rfl))

/-- Written values, parted by blanks and ended by a delimiter, are read as tokens with
these values. -/
theorem ofSourceFrom_line {vs : List Token.Value} {parts : List Text}
    (written : AllWritten vs parts) (nonempty : vs ≠ []) (l : Location) :
    ∃ ts d, Token.ofSourceFrom l (Text.join " " parts ++ [';', '\n']) = .ok (ts ++ [d]) ∧
      ts.map Token.value = vs ∧ d.isDelimiter = true := by
  induction written generalizing l with
  | nil => exact absurd rfl nonempty
  | @cons v part vs parts head tail ih =>
      cases tail with
      | nil =>
          rw [Text.join_singleton]
          exact ⟨[⟨v, l, part⟩], _, ofSourceFrom_last head l, rfl, rfl⟩
      | @cons v' part' vs parts head' tail =>
          have split : Text.join " " (part :: part' :: parts) ++ [';', '\n'] =
              (part ++ [' ']) ++ (Text.join " " (part' :: parts) ++ [';', '\n']) := by
            rw [Text.join_cons_cons]
            simp
          obtain ⟨ts, d, read, values, delimiter⟩ :=
            ih (List.cons_ne_nil v' vs) (l.past (part ++ [' ']))
          refine ⟨⟨v, l, part⟩ :: ts, d, ?_, ?_, delimiter⟩
          · rw [split, ofSourceFrom_append (ofSourceFrom_part head l), read]
            rfl
          · rw [List.map_cons, values]

end Token

namespace Statement

open Token.Value

/-- A statement that can be written is written as values that are a form of it.  The cases are
those of the statement, and some of them have two forms. -/
theorem exists_form_written {s : Statement} (wellFormed : s.WellFormed) :
    ∃ vs, Grammar.Form vs s ∧ AllWritten vs s.parts := by
  have word := written_keyword
  -- Of the forms that mean the same statement, `parts` writes the one that says most.
  cases s with
  | startSession name reserved =>
      obtain ⟨quotable, rfl⟩ := wellFormed
      exact ⟨_, .startSessionAs name, .cons (word .START) (.cons (word .SESSION)
        (.cons (word .AS) (.cons (written_string quotable) .nil)))⟩
  | nameSession name =>
      exact ⟨_, .nameSession name, .cons (word .NAME) (.cons (word .SESSION)
        (.cons (written_string wellFormed) .nil))⟩
  | endSession => exact ⟨_, .endSession, .cons (word .END) (.cons (word .SESSION) .nil)⟩
  | saveSession file =>
      exact ⟨_, .saveSession file, .cons (word .SAVE) (.cons (word .SESSION)
        (.cons (word .TO) (.cons (written_string wellFormed) .nil)))⟩
  | loadSession file =>
      exact ⟨_, .loadSession file, .cons (word .LOAD) (.cons (word .SESSION)
        (.cons (word .FROM) (.cons (written_string wellFormed) .nil)))⟩
  | addPizza pizza name =>
      obtain ⟨distinct, quotable⟩ := wellFormed
      exact ⟨_, .addPizzaAs pizza name, .cons (word .ADD) (.cons (word .PIZZA)
        (.cons (written_pizza distinct) (.cons (word .AS)
          (.cons (written_string quotable) .nil))))⟩
  | removePizza order =>
      obtain ⟨v, refers, written⟩ := exists_refers_written wellFormed
      exact ⟨_, .removePizza refers, .cons (word .REMOVE) (.cons (word .PIZZA)
        (.cons written .nil))⟩
  | viewPizza order details =>
      cases order with
      | none =>
          cases details with
          | false => exact ⟨_, .viewPizzas, .cons (word .VIEW) (.cons (word .PIZZA) .nil)⟩
          | true =>
              exact ⟨_, .viewAllDetails, .cons (word .VIEW) (.cons (word .PIZZA)
                (.cons (word .DETAILS) .nil))⟩
      | some order =>
          obtain ⟨v, refers, written⟩ := exists_refers_written (wellFormed order rfl)
          cases details with
          | false =>
              exact ⟨_, .viewPizza refers, .cons (word .VIEW) (.cons (word .PIZZA)
                (.cons written .nil))⟩
          | true =>
              exact ⟨_, .viewDetails refers, .cons (word .VIEW) (.cons (word .PIZZA)
                (.cons written (.cons (word .DETAILS) .nil)))⟩
  | alterPizza order alteration =>
      obtain ⟨v, refers, written⟩ := exists_refers_written wellFormed
      have altered {verb noun : Keyword} {e : Element} {a : Alteration}
          (changes : Grammar.Changes verb noun e a)
          (parts : a.parts = [verb.spelling, noun.spelling, e.literal]) :
          ∃ vs, Grammar.Form vs (.alterPizza order a) ∧
            AllWritten vs (alterPizza order a).parts := by
        refine ⟨_, .alter refers changes, ?_⟩
        rw [Statement.parts, parts]
        exact .cons (word .ALTER) (.cons (word .PIZZA) (.cons written (.cons (word verb)
          (.cons (word noun) (.cons (written_element e) .nil)))))
      cases alteration with
      | addTopping a => exact altered (.addTopping a) rfl
      | removeTopping a => exact altered (.removeTopping a) rfl
      | setCrust c => exact altered (.setCrust c) rfl
      | setSauce s => exact altered (.setSauce s) rfl
      | setCheese c => exact altered (.setCheese c) rfl
  | votePizza order votes =>
      obtain ⟨v, refers, written⟩ := exists_refers_written wellFormed
      exact ⟨_, .voteTimes refers votes, .cons (word .VOTE) (.cons (word .FOR)
        (.cons (word .PIZZA) (.cons written (.cons (written_integer votes) .nil))))⟩
  | selectTop count =>
      exact ⟨_, .selectTop count, .cons (word .SELECT) (.cons (word .TOP)
        (.cons (written_integer count) (.cons (word .PIZZA) .nil)))⟩
  | resetVotes =>
      exact ⟨_, .resetVotes, .cons (word .RESET) (.cons (word .SESSION)
        (.cons (word .VOTES) .nil))⟩
  | resetSession => exact ⟨_, .resetSession, .cons (word .RESET) (.cons (word .SESSION) .nil)⟩
  | quit => exact ⟨_, .quit, .cons (word .QUIT) .nil⟩

/-- The line of a statement that can be written is read as that statement, at whatever place the
line begins. -/
theorem ofSourceFrom_render {s : Statement} (wellFormed : s.WellFormed) (l : Location) :
    Program.ofSourceFrom Grammar.spl1 l s.render = .ok [s] := by
  obtain ⟨vs, form, written⟩ := exists_form_written wellFormed
  obtain ⟨ts, d, tokens, rfl, delimiter⟩ := Token.ofSourceFrom_line written form.ne_nil l
  have nonempty : ts ≠ [] := by
    rintro rfl
    exact form.ne_nil rfl
  have inside : ∀ t ∈ ts, t.isDelimiter = false := by
    intro t mem
    rw [Token.isDelimiter, beq_eq_false_iff_ne]
    intro same
    exact form.delimiter_notMem (same ▸ List.mem_map_of_mem mem)
  rw [Program.ofSourceFrom, Statement.render, tokens]
  exact Program.ofTokens_statement nonempty inside (Grammar.statement_eq_ok_iff.mpr form) delimiter

end Statement

namespace Program

/-- The rendering of a program that can be written is read as that program.  The induction is on
the statements, one line at a time. -/
theorem ofSourceFrom_render {program : Program} (wellFormed : program.WellFormed)
    (l : Location) : ofSourceFrom Grammar.spl1 l program.render = .ok program := by
  induction program generalizing l with
  | nil => exact ofSourceFrom_layout .nil Grammar.spl1 l
  | cons s program ih =>
      have first := Statement.ofSourceFrom_render (wellFormed s List.mem_cons_self) l
      have others := ih (fun t mem => wellFormed t (List.mem_cons_of_mem s mem)) (l.past s.render)
      have split : render (s :: program) = s.render ++ render program := List.flatMap_cons
      rw [split, ofSourceFrom_append first, others]
      rfl

/-- **The programs that have a source text are the well-formed ones.**  These are the
programs that set 30 orders aside for each session, whose names are ASCII without
quotes and whose pizzas repeat no arrangement; and each of them is read back from its
own rendering, with the toppings in their order. -/
theorem exists_source_iff_wellFormed (v : Grammar.Version) (program : Program) :
    ((∃ source, ofSource v.grammar source = .ok program) ↔ program.WellFormed) ∧
      (program.WellFormed ↔ ofSource v.grammar program.render = .ok program) := by
  rw [Grammar.Version.grammar_eq]
  have sound {source : Text} (read : ofSource Grammar.spl1 source = .ok program) :
      program.WellFormed := by
    rw [ofSource_eq] at read
    exact wellFormed_of_ofSourceFrom read
  have complete (wellFormed : program.WellFormed) :
      ofSource Grammar.spl1 program.render = .ok program :=
    ofSource_of_ofSourceFrom (ofSourceFrom_render wellFormed .start)
  refine ⟨⟨?_, ?_⟩, complete, sound⟩
  · rintro ⟨source, read⟩
    exact sound read
  · intro wellFormed
    exact ⟨program.render, complete wellFormed⟩

end Program

end Pizzeria
