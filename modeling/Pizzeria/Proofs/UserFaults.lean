import Pizzeria.Proofs.Forms
import Pizzeria.Proofs.Reading

/-!
# Faults are the user's

A rule has a signature, and a builder that takes for granted what the signature vouches
for: how many tokens there are, and of which kind each is.  Where a builder is mistaken,
it reports a fault of the grammar and not of the program.  No tokens at all lead there.
A builder does not look behind the tokens that its signature has slots for, and the only
thing that it ever refuses is an element of the wrong kind.

From there on the faults that reading a source text can end with are few: each stage has
its own kinds, and leaving out the comments has none, because the text ends its last line.

## Main Definitions

* `Stage.faults` — the kinds of fault that a stage can find in a source text.
* `Diagnostic.Attributable` — the diagnostic has a kind that its stage can find.

## Main Results

* `Grammar.build_append` — builders look at the tokens of their signature only.
* `Grammar.build?_eq_error_iff` — what builders refuse.
* `Program.attributable_of_refused` — what source texts are refused for.
-/

namespace Pizzeria

/-- The kinds of fault that a stage can find in a source text.  The stages of a pizza
literal report under the stage that decodes the literal. -/
def Stage.faults : Stage → List Diagnostic.Kind
  | tokenization => [.endOfInput, .unrecognizedToken]
  | lexing =>
      [.invalidKeyword, .invalidInteger, .invalidString, .unrecognizedElement, .badLiteral,
        .illFormedPizza, .duplicateTopping, .ambiguousNone, .expectedDifferentToken]
  | parsing => [.missingDelimiter, .invalidStatement, .wrongComponent]
  | preprocessing | pizzaTokenization | pizzaParsing => []

namespace Diagnostic

/-- The diagnostic has a kind that its stage can find in a source text. -/
def Attributable (d : Diagnostic) : Prop := d.kind ∈ d.stage.faults

theorem Attributable.of_mem {d : Diagnostic} (stage : Stage) (kind : Kind)
    (mem : kind ∈ stage.faults) (atStage : d.stage = stage) (ofKind : d.kind = kind) :
    d.Attributable := by
  rwa [Attributable, atStage, ofKind]

/-- Such a diagnostic never blames the grammar, since no stage has the kind of fault that
would. -/
theorem Attributable.isGrammarFault {d : Diagnostic} (attributable : d.Attributable) :
    d.isGrammarFault = false := by
  have allowed : ∀ stage : Stage, .invalidTokenType ∉ stage.faults := by
    intro stage
    cases stage <;> decide
  rw [Diagnostic.isGrammarFault, beq_eq_false_iff_ne]
  intro blames
  exact allowed d.stage (blames ▸ attributable)

/-- Such a diagnostic does not come from leaving out comments.  That pass can fail only on a text
whose last line is not ended, and reading ends it. -/
theorem Attributable.stage_ne_preprocessing {d : Diagnostic} (attributable : d.Attributable) :
    d.stage ≠ .preprocessing := by
  intro early
  rw [Attributable, early] at attributable
  exact absurd attributable List.not_mem_nil

end Diagnostic

/-! ### Builders -/

namespace Grammar

/-- A token within the signature is fetched from the same place, whatever is behind it. -/
theorem token_append {ts : List Token} {n : Nat} (within : n < ts.length) (more : List Token) :
    token (ts ++ more) n = token ts n := by
  rw [token, token, List.getElem?_append_left within]

/-- A builder looks only at the tokens that its signature has slots for: whatever comes
behind them makes no difference. -/
theorem build_append {rule : Rule} (mem : rule ∈ spl1.rules) {ts : List Token}
    (accepted : rule.signature.accepts ts = true) (more : List Token) :
    rule.build (ts ++ more) = rule.build ts := by
  have length := (Signature.accepts_iff.mp accepted).length_eq
  rw [List.length_map] at length
  have fetch (n : Nat) (within : n < rule.signature.length) :
      token (ts ++ more) n = token ts n :=
    token_append (length ▸ within) more
  simp only [spl1, sessionRules, orderRules, votingRules, alterationRules, List.mem_append,
    List.mem_cons, List.not_mem_nil, or_false] at mem
  clear accepted length
  -- Rule by rule, every position that the builder fetches is below the length of the signature.
  rcases mem with (((session | order) | voting) | alteration) | rfl
  · rcases session with rfl | rfl | rfl | rfl | rfl | rfl <;> simp (disch := decide) only [fetch]
  · rcases order with rfl | rfl | rfl | rfl | rfl | rfl | rfl <;>
      simp (disch := decide) only [fetch]
  · rcases voting with rfl | rfl | rfl | rfl | rfl | rfl <;> simp (disch := decide) only [fetch]
  · rcases alteration with rfl | rfl | rfl | rfl | rfl <;>
      simp (disch := decide) only [alter, fetch]
  · rfl

/-- A rule has something to say exactly if it has slots for the values, and then reading
the statement comes to it. -/
theorem build?_eq_some_iff {g : Grammar} {ts : List Token} {built : Except Diagnostic Statement} :
    g.build? ts = some built ↔ g.Fits (ts.map Token.value) ∧ g.statement ts = built := by
  rw [← find?_ne_none_iff, statement, build?]
  cases g.find? ts with
  | none => simp
  | some rule => simp

/-- Tokens are a misfit exactly if they fill the slots of an alteration, and the element
among them is of another kind than its keywords ask for. -/
theorem misfit_iff {ts : List Token} {expected : Element.Category} {t : Token} {e : Element}
    (found : ts[5]? = some t) (value : t.value = .element e) :
    Misfit (ts.map Token.value) expected ↔
      ∃ verb noun, Expects verb noun expected ∧ (alterSignature verb noun).accepts ts = true ∧
        e.category ≠ expected := by
  have sixth : (ts.map Token.value)[5]? = some (.element e) := by
    rw [List.getElem?_map, found, Option.map_some, value]
  simp only [Signature.accepts_iff]
  constructor
  · intro misfit
    generalize ts.map Token.value = vs at misfit sixth
    cases misfit with
    | @alter v order verb noun _ _ refers expects differs =>
        cases sixth
        exact ⟨verb, noun, expects, .cons rfl (.cons rfl (.cons ⟨order, refers⟩
          (.cons rfl (.cons rfl (.cons rfl .nil))))), differs⟩
  -- The slots leave open only the reference and the element, and the element is known.
  · rintro ⟨verb, noun, expects, admits, differs⟩
    obtain ⟨v, order, e', refers, values⟩ := exists_of_alterSignature admits
    rw [values] at sixth ⊢
    cases sixth
    exact .alter refers expects differs

/-- The one thing that a builder refuses is the element of an alteration.  It is reported by the
place and the text of its token. -/
theorem build?_eq_error_iff {ts : List Token} {d : Diagnostic} :
    spl1.build? ts = some (.error d) ↔
      ∃ verb noun expected t e, Expects verb noun expected ∧
        (alterSignature verb noun).accepts ts = true ∧ ts[5]? = some t ∧ t.value = .element e ∧
        e.category ≠ expected ∧ d = wrongComponent t expected e.category := by
  rw [build?_eq_some_iff, statement_eq_error_iff]
  constructor
  · rintro ⟨fits, ⟨t, expected, e, found, value, misfit, rfl⟩ | ⟨unfit, -⟩⟩
    · obtain ⟨verb, noun, expects, accepted, differs⟩ := (misfit_iff found value).mp misfit
      exact ⟨verb, noun, expected, t, e, expects, accepted, found, value, differs, rfl⟩
    · exact absurd fits unfit
  · rintro ⟨verb, noun, expected, t, e, expects, accepted, found, value, differs, rfl⟩
    have misfit := (misfit_iff found value).mpr ⟨verb, noun, expects, accepted, differs⟩
    exact ⟨misfit.fits, Or.inl ⟨t, expected, e, found, value, misfit, rfl⟩⟩

end Grammar

/-! ### Source texts -/

namespace Lexeme

/-- A text that is stuck is refused for what cutting lexemes can find: an end that is missing, or
a character that begins no token. -/
theorem Stuck.attributable {l : Location} {text : Text} {d : Diagnostic} (stuck : Stuck l text d) :
    d.Attributable := by
  cases stuck with
  | word _ _ | literal _ _ | lastStray _ _ =>
      exact .of_mem .tokenization .endOfInput (by decide) rfl rfl
  | stray _ _ _ => exact .of_mem .tokenization .unrecognizedToken (by decide) rfl rfl

/-- A lexeme that cannot be decoded is refused for what decoding can find in it.  Faults of
literals come under their own kinds, since their stages report as this one. -/
theorem attributable_of_decode {x : Lexeme} {d : Diagnostic} (refused : x.decode = .error d) :
    d.Attributable := by
  obtain ⟨kind, message, rfl, rfl | rfl | rfl | ⟨fault, rfl⟩⟩ := exists_refusal_of_decode refused
  · exact .of_mem .lexing .invalidKeyword (by decide) rfl rfl
  · exact .of_mem .lexing .invalidInteger (by decide) rfl rfl
  · exact .of_mem .lexing .invalidString (by decide) rfl rfl
  · refine .of_mem .lexing fault.kind ?_ rfl rfl
    cases fault <;> simp [Pizza.Fault.kind, Stage.faults]

end Lexeme

namespace Program

/-- A statement is refused for its element or as a whole, and both are faults of parsing. -/
theorem attributable_of_statement {ts : List Token} {d : Diagnostic}
    (refused : Grammar.spl1.statement ts = .error d) : d.Attributable := by
  rcases Grammar.statement_eq_error_iff.mp refused with ⟨t, expected, e, -, -, -, rfl⟩ | ⟨-, rfl⟩
  · exact .of_mem .parsing .wrongComponent (by decide) rfl rfl
  · exact .of_mem .parsing .invalidStatement (by decide) rfl rfl

/-- Whatever a source text is refused for, the stage that refuses it is one that can
refuse it for that. -/
theorem attributable_of_refused {source : Text} {d : Diagnostic}
    (refused : ofSource Grammar.spl1 source = .error d) : d.Attributable := by
  rw [ofSource_eq] at refused
  rcases Except.bind_eq_error_iff.mp refused with refused | ⟨ts, -, refused⟩
  · rcases Except.bind_eq_error_iff.mp refused with refused | ⟨xs, -, refused⟩
    · -- The comments are left out for certain, so it is the scan that fails.
      have left := uncomment_closeLine source
      rw [Lexeme.ofSourceFrom, show uncommentFrom .code .start _ = _ from left] at refused
      obtain ⟨_, _, -, stuck⟩ := (Lexeme.scanned_scanFrom .start _).exists_stuck refused
      exact stuck.attributable
    · obtain ⟨_, x, _, _, -, -, refused⟩ := Except.mapM_eq_error_iff.mp refused
      exact Lexeme.attributable_of_decode refused
  · rcases exists_of_ofTokens_eq_error refused with ⟨t, -, rfl⟩ | ⟨segment, -, -, refused⟩
    · exact .of_mem .parsing .missingDelimiter (by decide) rfl rfl
    · exact attributable_of_statement refused

end Program

/-- **Faults are the user's.**  In every version, a rule that decides over tokens builds
its statement from these tokens and never from what is behind them.  It refuses them
exactly if they have the shape of an alteration whose element is of another kind than its
keywords say, and reports that element by its place and text; so it never reports a fault
of the grammar, which a token that is missing or of an unforeseen kind would be.  And a
source text is refused, by a stage behind the one for comments, for what this stage can
find in it. -/
theorem Grammar.Version.never_isGrammarFault (v : Version) :
    (∀ ts rule, v.grammar.find? ts = some rule →
      ∀ more, rule.build (ts ++ more) = rule.build ts) ∧
    (∀ ts d, v.grammar.build? ts = some (.error d) ↔
      ∃ verb noun expected t e, Expects verb noun expected ∧
        (alterSignature verb noun).accepts ts = true ∧ ts[5]? = some t ∧ t.value = .element e ∧
        e.category ≠ expected ∧
        d = { kind := .wrongComponent, stage := .parsing, location := t.location,
              token := some t.text,
              message := "Expected a " ++ expected.name ++ ", found a " ++ e.category.name }) ∧
    (∀ ts d, v.grammar.build? ts = some (.error d) → d.isGrammarFault = false) ∧
    ∀ source d, Program.ofSource v.grammar source = .error d →
      d.kind ∈ d.stage.faults ∧ d.stage ≠ .preprocessing ∧ d.isGrammarFault = false := by
  rw [grammar_eq]
  refine ⟨?_, ?_, ?_, ?_⟩
  · intro ts rule found
    obtain ⟨mem, accepted⟩ := mem_and_accepts_of_find? found
    exact build_append mem accepted
  · intro ts d
    exact build?_eq_error_iff
  · intro ts d refused
    obtain ⟨verb, noun, expected, t, e, -, -, -, -, -, rfl⟩ := build?_eq_error_iff.mp refused
    rfl
  · intro source d refused
    have attributable := Program.attributable_of_refused refused
    exact ⟨attributable, attributable.stage_ne_preprocessing, attributable.isGrammarFault⟩

/-- A topping where the keywords ask for a crust. -/
theorem Grammar.Version.never_isGrammarFault_topping_as_crust :
    ∃ d : Diagnostic,
      Program.ofSource Grammar.spl2 "ALTER PIZZA (1) SET CRUST {HAM};" = .error d ∧
      d = ⟨.wrongComponent, .parsing, ⟨1, 27⟩, some "{HAM}",
        "Expected a crust, found a topping arrangement"⟩ ∧
      d.kind ∈ d.stage.faults ∧ d.stage ≠ .preprocessing ∧ d.isGrammarFault = false := by
  refine ⟨_, ?refused, rfl, (never_isGrammarFault .spl2).2.2.2 _ _ ?refused⟩
  decide +kernel

end Pizzeria
