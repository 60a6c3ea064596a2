import Pizzeria.Grammar.Standard
import Pizzeria.Proofs.Outcome

/-!
# The forms of statement

What the rules of the language make of tokens, said without rules: which values of
tokens mean a statement, and which do not because an element is of the wrong kind.
Where the tokens stand and how they are written enters only into what is reported.

## Main Definitions

* `Slot.Admits` — the values that may stand in a slot.
* `Grammar.Form` — token values and the statement that they mean.
* `Grammar.Misfit` — an alteration whose element is of another kind than its
  keywords say.

## Main Results

* `Grammar.statement_cases` — what reading a statement can come to.
* `Grammar.statement_eq_ok_iff` — a statement is read from its forms only.
* `Grammar.statement_eq_error_iff` — what else is refused, and how it is reported.
-/

namespace Pizzeria

/-- The value refers to an order. -/
inductive Token.Value.Refers : Token.Value → Specifier → Prop where
  | index (number : Int32) : Refers (.integer number) (.index number)
  | name (content : Text) : Refers (.string content) (.name content)
  | replica (pizza : Pizza) : Refers (.pizza pizza) (.replica pizza)

/-! ### Slots and signatures -/

namespace Token.Value

/-- The kind of a value says which constructor made it.  A slot for a kind is opened with this,
whatever the kind is. -/
theorem kind_eq_iff {v : Token.Value} {k : Token.Kind} :
    v.kind = k ↔
      match k with
      | .keyword => ∃ word, v = .keyword word
      | .integer => ∃ number, v = .integer number
      | .string => ∃ content, v = .string content
      | .pizza => ∃ pizza, v = .pizza pizza
      | .element => ∃ element, v = .element element
      | .delimiter => v = .delimiter := by
  cases v <;> cases k <;> simp [kind]

/-- The kinds that refer to an order are those of the values that refer to one.  A slot for a
reference says the former, and reading the reference needs the latter. -/
theorem isSpecifier_kind_iff {v : Token.Value} :
    v.kind.isSpecifier = true ↔ ∃ order, v.Refers order := by
  constructor
  · intro h
    cases v with
    | integer n => exact ⟨_, .index n⟩
    | string t => exact ⟨_, .name t⟩
    | pizza p => exact ⟨_, .replica p⟩
    | keyword _ | element _ | delimiter => cases h
  · rintro ⟨order, refers⟩
    cases refers <;> rfl

end Token.Value

/-- The value may stand in the slot. -/
def Slot.Admits (slot : Slot) (v : Token.Value) : Prop :=
  match slot with
  | .word w => v = .keyword w
  | .kind k => v.kind = k
  | .specifier => ∃ order, v.Refers order

/-- Whether a token may stand in a slot is a matter of its value.  Where it stands and how it is
written do not count. -/
theorem Slot.accepts_iff {slot : Slot} {t : Token} :
    slot.accepts t = true ↔ slot.Admits t.value := by
  cases slot with
  | word w => exact beq_iff_eq
  | kind k => exact beq_iff_eq
  | specifier => exact Token.Value.isSpecifier_kind_iff

/-- Tokens fill a signature exactly if their values fill it slot by slot.  From here on the rules
are compared with values only. -/
theorem Signature.accepts_iff {signature : Signature} {ts : List Token} :
    signature.accepts ts = true ↔ List.Forall₂ Slot.Admits signature (ts.map Token.value) := by
  induction signature generalizing ts with
  | nil => cases ts <;> simp [accepts]
  | cons slot slots ih => cases ts <;> simp [accepts, ih, Slot.accepts_iff]

namespace Grammar

/-! ### Forms -/

/-- The keywords and the element of a change, and the change. -/
inductive Changes : Keyword → Keyword → Element → Alteration → Prop where
  | addTopping (a : Arrangement) : Changes .ADD .TOPPING (.topping a) (.addTopping a)
  | removeTopping (a : Arrangement) : Changes .REMOVE .TOPPING (.topping a) (.removeTopping a)
  | setCrust (c : Crust) : Changes .SET .CRUST (.crust c) (.setCrust c)
  | setSauce (s : Sauce) : Changes .SET .SAUCE (.sauce s) (.setSauce s)
  | setCheese (c : Cheese) : Changes .SET .CHEESE (.cheese c) (.setCheese c)

/-- The keywords of a change, and the kind of element that they ask for. -/
inductive Expects : Keyword → Keyword → Element.Category → Prop where
  | addTopping : Expects .ADD .TOPPING .topping
  | removeTopping : Expects .REMOVE .TOPPING .topping
  | setCrust : Expects .SET .CRUST .crust
  | setSauce : Expects .SET .SAUCE .sauce
  | setCheese : Expects .SET .CHEESE .cheese

/-- The values of the tokens of a statement, and the statement. -/
inductive Form : List Token.Value → Statement → Prop where
  | startSession : Form [.keyword .START, .keyword .SESSION] (.startSession "" 30)
  | startSessionAs (name : Text) :
      Form [.keyword .START, .keyword .SESSION, .keyword .AS, .string name]
        (.startSession name 30)
  | nameSession (name : Text) :
      Form [.keyword .NAME, .keyword .SESSION, .string name] (.nameSession name)
  | endSession : Form [.keyword .END, .keyword .SESSION] .endSession
  | saveSession (file : Text) :
      Form [.keyword .SAVE, .keyword .SESSION, .keyword .TO, .string file] (.saveSession file)
  | loadSession (file : Text) :
      Form [.keyword .LOAD, .keyword .SESSION, .keyword .FROM, .string file]
        (.loadSession file)
  | addPizza (pizza : Pizza) :
      Form [.keyword .ADD, .keyword .PIZZA, .pizza pizza] (.addPizza pizza "")
  | addPizzaAs (pizza : Pizza) (name : Text) :
      Form [.keyword .ADD, .keyword .PIZZA, .pizza pizza, .keyword .AS, .string name]
        (.addPizza pizza name)
  | removePizza {v : Token.Value} {order : Specifier} (refers : v.Refers order) :
      Form [.keyword .REMOVE, .keyword .PIZZA, v] (.removePizza order)
  | viewPizza {v : Token.Value} {order : Specifier} (refers : v.Refers order) :
      Form [.keyword .VIEW, .keyword .PIZZA, v] (.viewPizza (some order) false)
  | viewPizzas : Form [.keyword .VIEW, .keyword .PIZZA] (.viewPizza none false)
  | viewDetails {v : Token.Value} {order : Specifier} (refers : v.Refers order) :
      Form [.keyword .VIEW, .keyword .PIZZA, v, .keyword .DETAILS]
        (.viewPizza (some order) true)
  | viewAllDetails :
      Form [.keyword .VIEW, .keyword .PIZZA, .keyword .DETAILS] (.viewPizza none true)
  | vote {v : Token.Value} {order : Specifier} (refers : v.Refers order) :
      Form [.keyword .VOTE, .keyword .FOR, .keyword .PIZZA, v] (.votePizza order 1)
  | voteTimes {v : Token.Value} {order : Specifier} (refers : v.Refers order)
      (votes : Int32) :
      Form [.keyword .VOTE, .keyword .FOR, .keyword .PIZZA, v, .integer votes]
        (.votePizza order votes)
  | subvert {v : Token.Value} {order : Specifier} (refers : v.Refers order) :
      Form [.keyword .SUBVERT, .keyword .DEMOCRACY, .keyword .FOR, .keyword .PIZZA, v]
        (.votePizza order 9999)
  | selectTop (count : Int32) :
      Form [.keyword .SELECT, .keyword .TOP, .integer count, .keyword .PIZZA]
        (.selectTop count)
  | resetVotes :
      Form [.keyword .RESET, .keyword .SESSION, .keyword .VOTES] .resetVotes
  | resetSession : Form [.keyword .RESET, .keyword .SESSION] .resetSession
  | alter {v : Token.Value} {order : Specifier} {verb noun : Keyword} {e : Element}
      {a : Alteration} (refers : v.Refers order) (changes : Changes verb noun e a) :
      Form [.keyword .ALTER, .keyword .PIZZA, v, .keyword verb, .keyword noun, .element e]
        (.alterPizza order a)
  | quit : Form [.keyword .QUIT] .quit

/-- The values of the tokens of an alteration whose element is of another kind than
its keywords ask for, and that kind. -/
inductive Misfit : List Token.Value → Element.Category → Prop where
  | alter {v : Token.Value} {order : Specifier} {verb noun : Keyword} {e : Element}
      {expected : Element.Category} (refers : v.Refers order)
      (expects : Expects verb noun expected) (differs : e.category ≠ expected) :
      Misfit [.keyword .ALTER, .keyword .PIZZA, v, .keyword verb, .keyword noun, .element e]
        expected

/-- No statement is written without tokens; an empty statement between two semicolons is none. -/
theorem Form.ne_nil {vs : List Token.Value} {s : Statement} (form : Form vs s) : vs ≠ [] := by
  cases form <;> exact List.cons_ne_nil _ _

/-- No delimiter is part of a statement.  So the tokens of a form are one segment, however many
statements stand around it. -/
theorem Form.delimiter_notMem {vs : List Token.Value} {s : Statement} (form : Form vs s) :
    .delimiter ∉ vs := by
  have apart {v : Token.Value} {order : Specifier} (refers : v.Refers order) :
      .delimiter ≠ v := by
    rintro rfl
    cases refers
  cases form with
  | removePizza refers | viewPizza refers | viewDetails refers | vote refers
  | voteTimes refers _ | subvert refers | alter refers _ => simp [apart refers]
  | _ => simp

/-! ### What the rules build -/

/-- What a rule may come to: a statement of which the values are a form, or an
element of the wrong kind. -/
def Outcome (ts : List Token) (built : Except Diagnostic Statement) : Prop :=
  (∃ s, built = .ok s ∧ Form (ts.map Token.value) s) ∨
    ∃ t expected e, ts[5]? = some t ∧ t.value = .element e ∧
      Misfit (ts.map Token.value) expected ∧
      built = .error (wrongComponent t expected e.category)

/-! #### Fetching -/

/-- What a reader of tokens makes of every token with a value. -/
inductive Reads : {α : Type} → Token.Value → (Token → Except Diagnostic α) → α → Prop where
  | integer (number : Int32) : Reads (.integer number) Token.integer number
  | string (content : Text) : Reads (.string content) Token.string content
  | pizza (pizza : Pizza) : Reads (.pizza pizza) Token.pizza pizza
  | element (e : Element) : Reads (.element e) Token.element e
  | specifier {v : Token.Value} {order : Specifier} (refers : v.Refers order) :
      Reads v Token.specifier order

/-- A reader gets what the value says from every token with this value, wherever the token stands.
-/
theorem Reads.eq_ok {α : Type} {v : Token.Value} {read : Token → Except Diagnostic α} {a : α}
    (reads : Reads v read a) {t : Token} (value : t.value = v) : read t = .ok a := by
  cases reads with
  | integer number => rw [Token.integer, value]
  | string content => rw [Token.string, value]
  | pizza pizza => rw [Token.pizza, value]
  | element e => rw [Token.element, value]
  | specifier refers =>
      rw [Token.specifier, value]
      cases refers <;> rfl

section Fetching

variable {ts : List Token} {n : Nat}

/-- A position that the values have is one that the tokens have, and fetching from there succeeds.
Builders fetch by position, and signatures know only the values. -/
theorem exists_token {v : Token.Value} (h : (ts.map Token.value)[n]? = some v) :
    ∃ t, ts[n]? = some t ∧ token ts n = .ok t ∧ t.value = v := by
  rw [List.getElem?_map, Option.map_eq_some_iff] at h
  obtain ⟨t, found, value⟩ := h
  exact ⟨t, found, by rw [token, found], value⟩

/-- Fetching a token and reading it cannot fail where the values have one for the reader at
that position.  The values are known from the signature, so no builder runs into a fault of
the grammar. -/
theorem bind_token {α β : Type} {v : Token.Value} {read : Token → Except Diagnostic α} {a : α}
    (h : (ts.map Token.value)[n]? = some v) (reads : Reads v read a)
    (k : α → Except Diagnostic β) : (token ts n >>= fun t => read t >>= k) = k a := by
  obtain ⟨t, -, fetched, value⟩ := exists_token h
  rw [fetched]
  show read t >>= k = k a
  rw [reads.eq_ok value]
  rfl

end Fetching

/-- A rule that builds the statement of which the values are a form comes to what it may come to.
Every rule but those for alterations is of this sort. -/
theorem Outcome.ok {ts : List Token} {built : Except Diagnostic Statement}
    {vs : List Token.Value} {s : Statement} (values : ts.map Token.value = vs)
    (form : Form vs s) (builds : built = .ok s) : Outcome ts built :=
  Or.inl ⟨s, builds, values ▸ form⟩

/-! #### Rules by their slots

A rule has keywords and, besides them, no slot, one slot or two.  Which values its tokens can
have follows from that alone. -/

/-- Keywords at the beginning of a signature are filled by themselves only, so what is open
is what fills the slots behind them. -/
theorem admits_words_append_iff {front : List Keyword} {slots : Signature}
    {vs : List Token.Value} :
    List.Forall₂ Slot.Admits (front.map .word ++ slots) vs ↔
      ∃ rest, vs = front.map .keyword ++ rest ∧ List.Forall₂ Slot.Admits slots rest := by
  induction front generalizing vs with
  | nil => simp
  | cons w front ih =>
      rw [List.map_cons, List.cons_append, List.forall₂_cons_left_iff]
      constructor
      · rintro ⟨_, others, rfl, admitted, rfl⟩
        obtain ⟨rest, rfl, admits⟩ := ih.mp admitted
        exact ⟨rest, rfl, admits⟩
      · rintro ⟨rest, rfl, admits⟩
        exact ⟨_, _, rfl, ih.mpr ⟨rest, rfl, admits⟩, rfl⟩

theorem admits_words_iff {words : List Keyword} {vs : List Token.Value} :
    List.Forall₂ Slot.Admits (words.map .word) vs ↔ vs = words.map .keyword := by
  rw [← List.append_nil (words.map Slot.word), admits_words_append_iff]
  simp

section Slots

variable {ts : List Token} {α β : Type} {slot slot' : Slot} {s : Statement}

/-- A rule of keywords alone means one statement, since there is nothing in its tokens that could
vary. -/
theorem outcome_of_words (words : List Keyword) (form : Form (words.map .keyword) s)
    (accepted : Signature.accepts (words.map .word) ts = true) : Outcome ts (.ok s) :=
  .ok (admits_words_iff.mp (Signature.accepts_iff.mp accepted)) form rfl

/-- A rule with one slot reads the token in the slot.  What is left to say about such a rule
is which form the values in the slot complete. -/
theorem outcome_of_slot (front back : List Keyword) {read : Token → Except Diagnostic α}
    {make : α → Statement}
    (filled : ∀ v, slot.Admits v → ∃ a, Reads v read a ∧
      Form (front.map .keyword ++ v :: back.map .keyword) (make a))
    (accepted : Signature.accepts (front.map .word ++ slot :: back.map .word) ts = true) :
    Outcome ts (token ts front.length >>= fun t => read t >>= fun a => .ok (make a)) := by
  obtain ⟨_, values, admitted⟩ := admits_words_append_iff.mp (Signature.accepts_iff.mp accepted)
  obtain ⟨v, _, admits, words, rfl⟩ := List.forall₂_cons_left_iff.mp admitted
  obtain rfl := admits_words_iff.mp words
  obtain ⟨a, reads, form⟩ := filled v admits
  exact .ok values form (bind_token (by simp [values]) reads _)

/-- A rule with two slots, the second of them at its end, reads both tokens, in this order.  The
order matters for nothing but the fault that would be reported first, and there is none. -/
theorem outcome_of_two_slots (front between : List Keyword) {read : Token → Except Diagnostic α}
    {read' : Token → Except Diagnostic β} {make : α → β → Statement}
    (filled : ∀ v w, slot.Admits v → slot'.Admits w → ∃ a b, Reads v read a ∧ Reads w read' b ∧
      Form (front.map .keyword ++ v :: (between.map .keyword ++ [w])) (make a b))
    (accepted :
      Signature.accepts (front.map .word ++ slot :: (between.map .word ++ [slot'])) ts = true) :
    Outcome ts (token ts front.length >>= fun t => read t >>= fun a =>
      token ts (front.length + (between.length + 1)) >>= fun t => read' t >>= fun b =>
        .ok (make a b)) := by
  obtain ⟨_, values, admitted⟩ := admits_words_append_iff.mp (Signature.accepts_iff.mp accepted)
  obtain ⟨v, _, admits, behind, rfl⟩ := List.forall₂_cons_left_iff.mp admitted
  obtain ⟨_, rfl, last⟩ := admits_words_append_iff.mp behind
  obtain ⟨w, _, admits', ⟨⟩, rfl⟩ := List.forall₂_cons_left_iff.mp last
  obtain ⟨a, b, reads, reads', form⟩ := filled v w admits admits'
  refine .ok values form ?_
  exact (bind_token (by simp [values]) reads _).trans (bind_token (by simp [values]) reads' _)

end Slots

/-! #### The rules of the language -/

/-- What the rules about sessions build: all of them have at most one slot, for a name or a path.
-/
theorem outcome_of_mem_sessionRules {rule : Rule} (mem : rule ∈ sessionRules) {ts : List Token}
    (accepted : rule.signature.accepts ts = true) : Outcome ts (rule.build ts) := by
  simp only [sessionRules, List.mem_cons, List.not_mem_nil, or_false] at mem
  rcases mem with rfl | rfl | rfl | rfl | rfl | rfl
  · exact outcome_of_words [.START, .SESSION] .startSession accepted
  · refine outcome_of_slot [.START, .SESSION, .AS] [] ?_ accepted
    intro v admits
    obtain ⟨name, rfl⟩ := Token.Value.kind_eq_iff.mp admits
    exact ⟨name, .string name, .startSessionAs name⟩
  · refine outcome_of_slot [.NAME, .SESSION] [] ?_ accepted
    intro v admits
    obtain ⟨name, rfl⟩ := Token.Value.kind_eq_iff.mp admits
    exact ⟨name, .string name, .nameSession name⟩
  · exact outcome_of_words [.END, .SESSION] .endSession accepted
  · refine outcome_of_slot [.SAVE, .SESSION, .TO] [] ?_ accepted
    intro v admits
    obtain ⟨file, rfl⟩ := Token.Value.kind_eq_iff.mp admits
    exact ⟨file, .string file, .saveSession file⟩
  · refine outcome_of_slot [.LOAD, .SESSION, .FROM] [] ?_ accepted
    intro v admits
    obtain ⟨file, rfl⟩ := Token.Value.kind_eq_iff.mp admits
    exact ⟨file, .string file, .loadSession file⟩

/-- What the rules about orders build.  Adding a pizza under a name is the one with two slots. -/
theorem outcome_of_mem_orderRules {rule : Rule} (mem : rule ∈ orderRules) {ts : List Token}
    (accepted : rule.signature.accepts ts = true) : Outcome ts (rule.build ts) := by
  simp only [orderRules, List.mem_cons, List.not_mem_nil, or_false] at mem
  rcases mem with rfl | rfl | rfl | rfl | rfl | rfl | rfl
  · refine outcome_of_slot [.ADD, .PIZZA] [] ?_ accepted
    intro v admits
    obtain ⟨pizza, rfl⟩ := Token.Value.kind_eq_iff.mp admits
    exact ⟨pizza, .pizza pizza, .addPizza pizza⟩
  · refine outcome_of_two_slots [.ADD, .PIZZA] [.AS] ?_ accepted
    intro v w admits admits'
    obtain ⟨pizza, rfl⟩ := Token.Value.kind_eq_iff.mp admits
    obtain ⟨name, rfl⟩ := Token.Value.kind_eq_iff.mp admits'
    exact ⟨pizza, name, .pizza pizza, .string name, .addPizzaAs pizza name⟩
  · refine outcome_of_slot [.REMOVE, .PIZZA] [] ?_ accepted
    rintro v ⟨order, refers⟩
    exact ⟨order, .specifier refers, .removePizza refers⟩
  · refine outcome_of_slot [.VIEW, .PIZZA] [] ?_ accepted
    rintro v ⟨order, refers⟩
    exact ⟨order, .specifier refers, .viewPizza refers⟩
  · exact outcome_of_words [.VIEW, .PIZZA] .viewPizzas accepted
  · refine outcome_of_slot [.VIEW, .PIZZA] [.DETAILS] ?_ accepted
    rintro v ⟨order, refers⟩
    exact ⟨order, .specifier refers, .viewDetails refers⟩
  · exact outcome_of_words [.VIEW, .PIZZA, .DETAILS] .viewAllDetails accepted

/-- What the rules about votes build.  The numbers of votes that no token gives are those of the
form. -/
theorem outcome_of_mem_votingRules {rule : Rule} (mem : rule ∈ votingRules) {ts : List Token}
    (accepted : rule.signature.accepts ts = true) : Outcome ts (rule.build ts) := by
  simp only [votingRules, List.mem_cons, List.not_mem_nil, or_false] at mem
  rcases mem with rfl | rfl | rfl | rfl | rfl | rfl
  · refine outcome_of_slot [.VOTE, .FOR, .PIZZA] [] ?_ accepted
    rintro v ⟨order, refers⟩
    exact ⟨order, .specifier refers, .vote refers⟩
  · refine outcome_of_two_slots [.VOTE, .FOR, .PIZZA] [] ?_ accepted
    rintro v w ⟨order, refers⟩ admits
    obtain ⟨votes, rfl⟩ := Token.Value.kind_eq_iff.mp admits
    exact ⟨order, votes, .specifier refers, .integer votes, .voteTimes refers votes⟩
  · refine outcome_of_slot [.SUBVERT, .DEMOCRACY, .FOR, .PIZZA] [] ?_ accepted
    rintro v ⟨order, refers⟩
    exact ⟨order, .specifier refers, .subvert refers⟩
  · refine outcome_of_slot [.SELECT, .TOP] [.PIZZA] ?_ accepted
    intro v admits
    obtain ⟨count, rfl⟩ := Token.Value.kind_eq_iff.mp admits
    exact ⟨count, .integer count, .selectTop count⟩
  · exact outcome_of_words [.RESET, .SESSION, .VOTES] .resetVotes accepted
  · exact outcome_of_words [.RESET, .SESSION] .resetSession accepted

/-- The tokens that an alteration is written with: what is open is the reference to an order
and the element. -/
theorem exists_of_alterSignature {verb noun : Keyword} {vs : List Token.Value}
    (admits : List.Forall₂ Slot.Admits (alterSignature verb noun) vs) :
    ∃ v order e, v.Refers order ∧
      vs = [.keyword .ALTER, .keyword .PIZZA, v, .keyword verb, .keyword noun, .element e] := by
  have split : List.Forall₂ Slot.Admits ([.ALTER, .PIZZA].map .word ++ .specifier ::
      ([verb, noun].map .word ++ [.kind .element])) vs := admits
  obtain ⟨_, rfl, admitted⟩ := admits_words_append_iff.mp split
  obtain ⟨v, _, ⟨order, refers⟩, behind, rfl⟩ := List.forall₂_cons_left_iff.mp admitted
  obtain ⟨_, rfl, last⟩ := admits_words_append_iff.mp behind
  obtain ⟨w, _, element, ⟨⟩, rfl⟩ := List.forall₂_cons_left_iff.mp last
  obtain ⟨e, rfl⟩ := Token.Value.kind_eq_iff.mp element
  exact ⟨v, order, e, refers, rfl⟩

/-- An alteration is built if its element is of the kind that its keywords ask for,
and else the element is reported. -/
theorem outcome_alter {verb noun : Keyword} {expected : Element.Category}
    {change? : Element → Option Alteration} {ts : List Token}
    (expects : Expects verb noun expected)
    (changes : ∀ e a, change? e = some a → Changes verb noun e a)
    (differs : ∀ e, change? e = none → e.category ≠ expected)
    (accepted : (alterSignature verb noun).accepts ts = true) :
    Outcome ts (alter expected change? ts) := by
  obtain ⟨v, order, e, refers, values⟩ :=
    exists_of_alterSignature (Signature.accepts_iff.mp accepted)
  obtain ⟨t, found, fetched, value⟩ :=
    exists_token (show (ts.map Token.value)[5]? = some (.element e) by rw [values]; rfl)
  have element : t.element = .ok e := (Reads.element e).eq_ok value
  rw [alter, fetched]
  cases change : change? e with
  | none =>
      refine Or.inr ⟨t, expected, e, found, value, ?_, ?_⟩
      · rw [values]
        exact .alter refers expects (differs e change)
      · simp only [bind, Except.bind, element, change]
        rfl
  | some a =>
      refine .ok values (.alter refers (changes e a change)) ?_
      have third : (ts.map Token.value)[2]? = some v := by rw [values]; rfl
      have rest := bind_token third (.specifier refers) fun order =>
        pure (Statement.alterPizza order a)
      simp only [bind, Except.bind, element, change]
      exact rest

/-- What the rules about alterations build.  Each has its own kind of element, and what is left to
show is that its change exists exactly for that kind. -/
theorem outcome_of_mem_alterationRules {rule : Rule} (mem : rule ∈ alterationRules)
    {ts : List Token} (accepted : rule.signature.accepts ts = true) :
    Outcome ts (rule.build ts) := by
  simp only [alterationRules, List.mem_cons, List.not_mem_nil, or_false] at mem
  rcases mem with rfl | rfl | rfl | rfl | rfl
  · refine outcome_alter .addTopping ?_ ?_ accepted
    · rintro (_ | _ | _ | a) _ ⟨⟩
      exact .addTopping a
    · rintro (_ | _ | _ | a) <;> simp [addTopping?, Element.category]
  · refine outcome_alter .removeTopping ?_ ?_ accepted
    · rintro (_ | _ | _ | a) _ ⟨⟩
      exact .removeTopping a
    · rintro (_ | _ | _ | a) <;> simp [removeTopping?, Element.category]
  · refine outcome_alter .setCrust ?_ ?_ accepted
    · rintro (c | _ | _ | _) _ ⟨⟩
      exact .setCrust c
    · rintro (c | _ | _ | _) <;> simp [setCrust?, Element.category]
  · refine outcome_alter .setSauce ?_ ?_ accepted
    · rintro (_ | s | _ | _) _ ⟨⟩
      exact .setSauce s
    · rintro (_ | s | _ | _) <;> simp [setSauce?, Element.category]
  · refine outcome_alter .setCheese ?_ ?_ accepted
    · rintro (_ | _ | c | _) _ ⟨⟩
      exact .setCheese c
    · rintro (_ | _ | c | _) <;> simp [setCheese?, Element.category]

/-- What a rule of the language makes of tokens that it accepts.  No rule reports a fault of the
grammar, since no such outcome is among these. -/
theorem outcome_of_mem_spl1 {rule : Rule} (mem : rule ∈ spl1.rules) {ts : List Token}
    (accepted : rule.signature.accepts ts = true) : Outcome ts (rule.build ts) := by
  simp only [spl1, List.mem_append, List.mem_singleton] at mem
  rcases mem with (((session | order) | voting) | alteration) | rfl
  · exact outcome_of_mem_sessionRules session accepted
  · exact outcome_of_mem_orderRules order accepted
  · exact outcome_of_mem_votingRules voting accepted
  · exact outcome_of_mem_alterationRules alteration accepted
  · exact outcome_of_words [.QUIT] .quit accepted

/-! ### Reading a statement -/

/-- The rule that decides is one of the grammar, and its signature accepts the tokens.  That it is
the first such rule is of no importance here, since forms are unambiguous. -/
theorem mem_and_accepts_of_find? {g : Grammar} {ts : List Token} {rule : Rule}
    (found : g.find? ts = some rule) :
    rule ∈ g.rules ∧ rule.signature.accepts ts = true := by
  have first : g.rules.find? (fun rule => rule.signature.accepts ts) = some rule := found
  exact ⟨List.mem_of_find?_eq_some first, by simpa using List.find?_some first⟩

/-- What reading a statement can come to: the statement that the values mean, an
element of the wrong kind, or no rule. -/
theorem statement_cases (ts : List Token) :
    Outcome ts (spl1.statement ts) ∨
      spl1.find? ts = none ∧ spl1.statement ts = .error (invalidStatement ts) := by
  cases found : spl1.find? ts with
  | none => exact Or.inr ⟨rfl, by rw [statement, build?, found]; rfl⟩
  | some rule =>
      obtain ⟨mem, accepted⟩ := mem_and_accepts_of_find? found
      have built : spl1.statement ts = rule.build ts := by
        rw [statement, build?, found]
        rfl
      rw [built]
      exact Or.inl (outcome_of_mem_spl1 mem accepted)

/-- Some rule has slots for the values. -/
def Fits (g : Grammar) (vs : List Token.Value) : Prop :=
  ∃ rule ∈ g.rules, List.Forall₂ Slot.Admits rule.signature vs

/-- A rule decides over tokens exactly if some rule has slots for their values.  So finding a rule
does not depend on the places and the texts of the tokens. -/
theorem find?_ne_none_iff {g : Grammar} {ts : List Token} :
    g.find? ts ≠ none ↔ g.Fits (ts.map Token.value) := by
  rw [Option.ne_none_iff_isSome, find?, List.find?_isSome]
  constructor
  · rintro ⟨rule, mem, accepted⟩
    exact ⟨rule, mem, Signature.accepts_iff.mp accepted⟩
  · rintro ⟨rule, mem, admits⟩
    exact ⟨rule, mem, Signature.accepts_iff.mpr admits⟩

/-- It is enough to name the signature that the values fill.  The builder of its rule does not
matter, and signatures can be compared by evaluation. -/
theorem fits_of_mem {g : Grammar} (signature : Signature) {vs : List Token.Value}
    (mem : signature ∈ g.signatures) (admits : List.Forall₂ Slot.Admits signature vs) :
    g.Fits vs := by
  obtain ⟨rule, among, rfl⟩ := List.mem_map.mp mem
  exact ⟨rule, among, admits⟩

/-- The rule for an alteration has slots for every element. -/
theorem fits_alter {v : Token.Value} {order : Specifier} {verb noun : Keyword}
    {expected : Element.Category} (refers : v.Refers order)
    (expects : Expects verb noun expected) (e : Element) :
    spl1.Fits
      [.keyword .ALTER, .keyword .PIZZA, v, .keyword verb, .keyword noun, .element e] := by
  have mem : alterSignature verb noun ∈ spl1.signatures := by
    cases expects <;> decide
  refine fits_of_mem (alterSignature verb noun) mem ?_
  exact .cons rfl (.cons rfl (.cons ⟨order, refers⟩ (.cons rfl (.cons rfl (.cons rfl .nil)))))

/-- A change is made by an element of the kind that its keywords ask for.  Hence no alteration is
both a form and a misfit. -/
theorem Changes.expects {verb noun : Keyword} {e : Element} {a : Alteration}
    (changes : Changes verb noun e a) : Expects verb noun e.category := by
  cases changes <;> constructor

/-- Every form has a rule.  This is the direction that reads the rules against the forms: none of
the forms was forgotten in the grammar. -/
theorem Form.fits {vs : List Token.Value} {s : Statement} (form : Form vs s) :
    spl1.Fits vs := by
  cases form with
  | startSession =>
      exact fits_of_mem [.word .START, .word .SESSION]
        (by decide) (.cons rfl (.cons rfl .nil))
  | startSessionAs name =>
      exact fits_of_mem [.word .START, .word .SESSION, .word .AS, .kind .string]
        (by decide) (.cons rfl (.cons rfl (.cons rfl (.cons rfl .nil))))
  | nameSession name =>
      exact fits_of_mem [.word .NAME, .word .SESSION, .kind .string]
        (by decide) (.cons rfl (.cons rfl (.cons rfl .nil)))
  | endSession =>
      exact fits_of_mem [.word .END, .word .SESSION]
        (by decide) (.cons rfl (.cons rfl .nil))
  | saveSession file =>
      exact fits_of_mem [.word .SAVE, .word .SESSION, .word .TO, .kind .string]
        (by decide) (.cons rfl (.cons rfl (.cons rfl (.cons rfl .nil))))
  | loadSession file =>
      exact fits_of_mem [.word .LOAD, .word .SESSION, .word .FROM, .kind .string]
        (by decide) (.cons rfl (.cons rfl (.cons rfl (.cons rfl .nil))))
  | addPizza pizza =>
      exact fits_of_mem [.word .ADD, .word .PIZZA, .kind .pizza]
        (by decide) (.cons rfl (.cons rfl (.cons rfl .nil)))
  | addPizzaAs pizza name =>
      exact fits_of_mem [.word .ADD, .word .PIZZA, .kind .pizza, .word .AS, .kind .string]
        (by decide) (.cons rfl (.cons rfl (.cons rfl (.cons rfl (.cons rfl .nil)))))
  | removePizza refers =>
      exact fits_of_mem [.word .REMOVE, .word .PIZZA, .specifier]
        (by decide) (.cons rfl (.cons rfl (.cons ⟨_, refers⟩ .nil)))
  | viewPizza refers =>
      exact fits_of_mem [.word .VIEW, .word .PIZZA, .specifier]
        (by decide) (.cons rfl (.cons rfl (.cons ⟨_, refers⟩ .nil)))
  | viewPizzas =>
      exact fits_of_mem [.word .VIEW, .word .PIZZA]
        (by decide) (.cons rfl (.cons rfl .nil))
  | viewDetails refers =>
      exact fits_of_mem [.word .VIEW, .word .PIZZA, .specifier, .word .DETAILS]
        (by decide) (.cons rfl (.cons rfl (.cons ⟨_, refers⟩ (.cons rfl .nil))))
  | viewAllDetails =>
      exact fits_of_mem [.word .VIEW, .word .PIZZA, .word .DETAILS]
        (by decide) (.cons rfl (.cons rfl (.cons rfl .nil)))
  | vote refers =>
      exact fits_of_mem [.word .VOTE, .word .FOR, .word .PIZZA, .specifier]
        (by decide) (.cons rfl (.cons rfl (.cons rfl (.cons ⟨_, refers⟩ .nil))))
  | voteTimes refers votes =>
      exact fits_of_mem [.word .VOTE, .word .FOR, .word .PIZZA, .specifier, .kind .integer]
        (by decide) (.cons rfl (.cons rfl (.cons rfl (.cons ⟨_, refers⟩ (.cons rfl .nil)))))
  | subvert refers =>
      exact fits_of_mem [.word .SUBVERT, .word .DEMOCRACY, .word .FOR, .word .PIZZA, .specifier]
        (by decide) (.cons rfl (.cons rfl (.cons rfl (.cons rfl (.cons ⟨_, refers⟩ .nil)))))
  | selectTop count =>
      exact fits_of_mem [.word .SELECT, .word .TOP, .kind .integer, .word .PIZZA]
        (by decide) (.cons rfl (.cons rfl (.cons rfl (.cons rfl .nil))))
  | resetVotes =>
      exact fits_of_mem [.word .RESET, .word .SESSION, .word .VOTES]
        (by decide) (.cons rfl (.cons rfl (.cons rfl .nil)))
  | resetSession =>
      exact fits_of_mem [.word .RESET, .word .SESSION]
        (by decide) (.cons rfl (.cons rfl .nil))
  | alter refers changes => exact fits_alter refers changes.expects _
  | quit => exact fits_of_mem [.word .QUIT] (by decide) (.cons rfl .nil)

/-- A misfit has a rule too.  It is refused by the builder of the rule, not for want of one, and
so the element is reported and not the statement. -/
theorem Misfit.fits {vs : List Token.Value} {expected : Element.Category}
    (misfit : Misfit vs expected) : spl1.Fits vs := by
  cases misfit with
  | alter refers expects differs => exact fits_alter refers expects _

/-! ### Forms are unambiguous -/

/-- A value refers to one order at most; whether there is such an order is decided only when the
statement is run. -/
theorem refers_unique {v : Token.Value} {order order' : Specifier} (refers : v.Refers order)
    (refers' : v.Refers order') : order = order' := by
  cases refers <;> cases refers' <;> rfl

/-- The keywords of an alteration settle the kind of element, which is what the report about a
misfit names as expected. -/
theorem Expects.unique {verb noun : Keyword} {expected expected' : Element.Category}
    (expects : Expects verb noun expected) (expects' : Expects verb noun expected') :
    expected = expected' := by
  cases expects <;> cases expects' <;> rfl

theorem Changes.unique {verb noun : Keyword} {e : Element} {a a' : Alteration}
    (changes : Changes verb noun e a) (changes' : Changes verb noun e a') : a = a' := by
  cases changes <;> cases changes' <;> rfl

/-- The same values mean one statement only.  A keyword is no reference to an order, which is what
keeps the view of all details apart from the view of one order. -/
theorem Form.unique {vs : List Token.Value} {s s' : Statement} (form : Form vs s)
    (form' : Form vs s') : s = s' := by
  cases form with
  | removePizza refers =>
      cases form' with
      | removePizza refers' => rw [refers_unique refers refers']
  | viewPizza refers =>
      cases form' with
      | viewPizza refers' => rw [refers_unique refers refers']
      | viewAllDetails => cases refers
  | viewDetails refers =>
      cases form' with
      | viewDetails refers' => rw [refers_unique refers refers']
  | viewAllDetails =>
      cases form' with
      | viewPizza refers' => cases refers'
      | viewAllDetails => rfl
  | vote refers =>
      cases form' with
      | vote refers' => rw [refers_unique refers refers']
  | voteTimes refers votes =>
      cases form' with
      | voteTimes refers' => rw [refers_unique refers refers']
  | subvert refers =>
      cases form' with
      | subvert refers' => rw [refers_unique refers refers']
  | alter refers changes =>
      cases form' with
      | alter refers' changes' =>
          rw [refers_unique refers refers', changes.unique changes']
  | _ =>
      cases form'
      rfl

theorem Misfit.unique {vs : List Token.Value} {expected expected' : Element.Category}
    (misfit : Misfit vs expected) (misfit' : Misfit vs expected') : expected = expected' := by
  cases misfit with
  | alter refers expects differs =>
      cases misfit' with
      | alter refers' expects' differs' => exact expects.unique expects'

theorem Form.not_misfit {vs : List Token.Value} {s : Statement} (form : Form vs s)
    (expected : Element.Category) : ¬ Misfit vs expected := by
  intro misfit
  cases misfit with
  | alter refers expects differs =>
      cases form with
      | alter refers' changes => exact differs (changes.expects.unique expects)

/-- A statement is read from its forms and from nothing else.  All that the proofs about programs
know of the grammar is this and `statement_eq_error_iff`. -/
theorem statement_eq_ok_iff {ts : List Token} {s : Statement} :
    spl1.statement ts = .ok s ↔ Form (ts.map Token.value) s := by
  constructor
  · intro read
    obtain (⟨s', read', form⟩ | ⟨t, expected, e, -, -, -, read'⟩) | ⟨-, read'⟩ :=
      statement_cases ts <;> rw [read'] at read
    · cases read
      exact form
    · cases read
    · cases read
  · intro form
    obtain (⟨s', read, form'⟩ | ⟨t, expected, e, -, -, misfit, -⟩) | ⟨absent, -⟩ :=
      statement_cases ts
    · rw [read, form'.unique form]
    · exact absurd misfit (form.not_misfit expected)
    · exact absurd absent (find?_ne_none_iff.mpr form.fits)

/-- A statement is refused for its element, at that element, exactly if its values
are a misfit; and it is refused as a whole exactly if no rule has slots for them. -/
theorem statement_eq_error_iff {ts : List Token} {d : Diagnostic} :
    spl1.statement ts = .error d ↔
      (∃ t expected e, ts[5]? = some t ∧ t.value = .element e ∧
        Misfit (ts.map Token.value) expected ∧ d = wrongComponent t expected e.category) ∨
      ¬ spl1.Fits (ts.map Token.value) ∧ d = invalidStatement ts := by
  constructor
  · intro refused
    obtain (⟨s', read, -⟩ | ⟨t, expected, e, found, value, misfit, read⟩) | ⟨absent, read⟩ :=
      statement_cases ts <;> rw [read] at refused
    · cases refused
    · cases refused
      exact Or.inl ⟨t, expected, e, found, value, misfit, rfl⟩
    · cases refused
      exact Or.inr ⟨fun fits => find?_ne_none_iff.mpr fits absent, rfl⟩
  -- Conversely, what `statement_cases` offers besides is ruled out by the values alone.
  · rintro (⟨t, expected, e, found, value, misfit, rfl⟩ | ⟨unfit, rfl⟩)
    · obtain (⟨s', -, form⟩ | ⟨t', expected', e', found', value', misfit', read⟩) | ⟨absent, -⟩ :=
        statement_cases ts
      · exact absurd misfit (form.not_misfit expected)
      · obtain rfl : t' = t := Option.some.inj (found'.symm.trans found)
        obtain rfl : e' = e := Token.Value.element.inj (value'.symm.trans value)
        rw [read, misfit'.unique misfit]
      · exact absurd absent (find?_ne_none_iff.mpr misfit.fits)
    · obtain (⟨s', -, form⟩ | ⟨t, expected, e, -, -, misfit, -⟩) | ⟨-, read⟩ := statement_cases ts
      · exact absurd form.fits unfit
      · exact absurd misfit.fits unfit
      · exact read

/-- So far the released versions have the same rules.  A version that adds rules will need forms
of its own; everything else here stays. -/
theorem Version.grammar_eq (v : Version) : v.grammar = Grammar.spl1 := by
  cases v <;> rfl

end Grammar

end Pizzeria
