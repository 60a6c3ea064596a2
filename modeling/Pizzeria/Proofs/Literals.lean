import Pizzeria.Proofs.Assembly
import Pizzeria.Proofs.LiteralSpacing

/-!
# Pizza literals

The literal of a pizza is read back as that pizza, toppings in their order, as long as
no arrangement is repeated, and else it is refused for the first arrangement that is; no
literal at all is read as a pizza with a repeated arrangement.  Each of the three steps of
reading adds a law of its own: the literal is a list of clauses, an explicit clause means
its element, and the components of a pizza conflict where its toppings are repeated.

## Main Results

* `Element.ofText_body` — the body of an explicit clause means the element.
* `Pizza.clauses_literalBody` — the clauses of a literal are those of its components.
* `Pizza.compatible_components_iff` — components conflict where toppings are repeated.
* `Pizza.ofText_literalBody` — the literal of a pizza is read as that pizza.
* `Pizza.nodup_of_ofText` — what is read has no repeated arrangement.
-/

namespace Pizzeria

/-! ### Clauses with a kind -/

namespace Element

/-- A kind and a value of letters are told apart at the colon.  Neither has a colon or white space
of its own. -/
theorem ofText_explicit {kind value : Text} (kindLetters : kind.all isLetter = true)
    (valueLetters : value.all isLetter = true) :
    ofText (kind ++ ':' :: value) = explicit kind value := by
  rw [List.all_eq_true] at kindLetters valueLetters
  have solidKind : ∀ c ∈ kind, isSpace c = false := fun c mem =>
    isSpace_eq_false_of_isLetter (kindLetters c mem)
  have solidValue : ∀ c ∈ value, isSpace c = false := fun c mem =>
    isSpace_eq_false_of_isLetter (valueLetters c mem)
  have colonKind : ':' ∉ kind := fun mem => absurd (kindLetters _ mem) (by decide)
  have colonValue : ':' ∉ value := fun mem => absurd (valueLetters _ mem) (by decide)
  rw [ofText_eq_ofParts, List.splitOn_append_cons_self_of_not_mem colonKind,
    List.splitOn_eq_singleton colonValue]
  show explicit kind.trim value.trim = _
  rw [Text.trim_eq_self solidKind, Text.trim_eq_self solidValue]

theorem explicit_eq_ok {kind value : Text} {read : Text → Option Element} {e : Element}
    (known : reader? kind = some read) (found : read value = some e) :
    explicit kind value = .ok e := by
  simp only [explicit, known, found]

theorem reader?_word (p : Position) :
    reader? p.word = some fun value => (Topping.ofWord? value).map fun t => topping ⟨p, t⟩ := by
  cases p <;> rfl

/-- The body of an element is a kind, a colon and a value that mean it.  The kind of a topping is
its position. -/
theorem exists_body (e : Element) :
    ∃ kind value, e.body = kind ++ ':' :: value ∧ kind.all isLetter = true ∧
      value.all isLetter = true ∧ explicit kind value = .ok e := by
  cases e with
  | crust c =>
      have found := Crust.wordTable.findWord_word List.prefix_rfl c
      exact ⟨"CRUST", c.word, rfl, by decide, Crust.wordTable.all_isLetter c,
        explicit_eq_ok rfl (congrArg (Option.map crust) found)⟩
  | sauce s =>
      have found := Sauce.wordTable.findWord_word (List.prefix_append _ Sauce.aliases) s
      exact ⟨"SAUCE", s.word, rfl, by decide, Sauce.wordTable.all_isLetter s,
        explicit_eq_ok rfl (congrArg (Option.map sauce) found)⟩
  | cheese c =>
      have found := Cheese.wordTable.findWord_word List.prefix_rfl c
      exact ⟨"CHEESE", c.word, rfl, by decide, Cheese.wordTable.all_isLetter c,
        explicit_eq_ok rfl (congrArg (Option.map cheese) found)⟩
  | topping a =>
      have found := Topping.wordTable.findWord_word (List.prefix_append _ Topping.aliases) a.topping
      exact ⟨a.position.word, a.topping.word, rfl, Position.wordTable.all_isLetter a.position,
        Topping.wordTable.all_isLetter a.topping, explicit_eq_ok (reader?_word a.position)
          (congrArg (Option.map fun t => topping ⟨a.position, t⟩) found)⟩

/-- The body of an explicit clause means the element that it was written for.  Bare words would be
shorter, but `NONE` is ambiguous. -/
theorem ofText_body (e : Element) : ofText e.body = .ok e := by
  obtain ⟨kind, value, body, kindLetters, valueLetters, meaning⟩ := exists_body e
  rw [body, ofText_explicit kindLetters valueLetters, meaning]

/-- A body consists of letters and its colon, so no mark of a literal is among its characters. -/
theorem isLetter_or_eq_of_mem_body {e : Element} {c : Char} (mem : c ∈ e.body) :
    isLetter c = true ∨ c = ':' := by
  obtain ⟨kind, value, body, kindLetters, valueLetters, -⟩ := exists_body e
  rw [body, List.mem_append, List.mem_cons] at mem
  rcases mem with mem | colon | mem
  · exact Or.inl (List.all_eq_true.mp kindLetters c mem)
  · exact Or.inr colon
  · exact Or.inl (List.all_eq_true.mp valueLetters c mem)

theorem isClauseMark_eq_false_of_mem_body {e : Element} {c : Char} (mem : c ∈ e.body) :
    isClauseMark c = false := by
  rcases isLetter_or_eq_of_mem_body mem with letter | rfl
  · by_contra mark
    simp only [isClauseMark, Bool.not_eq_false, Bool.or_eq_true, beq_iff_eq] at mark
    rcases mark with (rfl | rfl) | rfl <;> exact absurd letter (by decide)
  · rfl

end Element

/-! ### Joined clauses -/

namespace Pizza

open Element (Compatible)

theorem isClause_literal (e : Element) : IsClause e.literal :=
  ⟨e.body, fun _ mem => Element.isClauseMark_eq_false_of_mem_body mem, rfl⟩

/-- Clauses that are joined by commas are a list of clauses.  Nothing stands between a clause and
its comma, so there is nothing to skip. -/
theorem listing_join (e : Element) (es : List Element) :
    Listing (Text.join "," ((e :: es).map Element.literal)) ((e :: es).map Element.literal) := by
  induction es generalizing e with
  | nil =>
      have listing : Listing ([] ++ (e.literal ++ [])) [e.literal] :=
        .last rfl (isClause_literal e) rfl
      rw [List.map_singleton, Text.join_singleton]
      simpa using listing
  | cons e' es ih =>
      have listing : Listing ([] ++ (e.literal ++ ([] ++ ',' :: _))) (e.literal :: _) :=
        .cons rfl (isClause_literal e) rfl (ih e')
      rw [List.map_cons, List.map_cons, Text.join_cons_cons]
      simpa using listing

theorem clauses_literalBody (p : Pizza) :
    clauses p.literalBody = .ok (p.components.map Element.literal) :=
  (listing_join _ _).clauses_eq

theorem ofClauses_literal (es : List Element) :
    Element.ofClauses (es.map Element.literal) = .ok es := by
  unfold Element.ofClauses
  rw [Except.mapM_eq_ok_iff, List.forall₂_map_left_iff, List.forall₂_same]
  intro e _
  show Element.ofText (Text.interior ('{' :: (e.body ++ ['}']))) = .ok e
  rw [Text.interior_enclosed, Element.ofText_body]

/-- The literal of a pizza stands for its components, in the order in which they were written. -/
theorem ofText_literalBody_eq (p : Pizza) : ofText p.literalBody = ofElements p.components := by
  unfold ofText
  rw [clauses_literalBody]
  show Element.ofClauses (p.components.map Element.literal) >>= ofElements = _
  rw [ofClauses_literal]
  rfl

/-- The body of a literal is made of its clauses, and commas.  So the literal is not closed before
its end. -/
theorem closer_notMem_literalBody (p : Pizza) : ']' ∉ p.literalBody := by
  have inClause (e : Element) : ']' ∉ e.literal := by
    intro mem
    simp only [Element.literal, List.cons_append, List.mem_cons, List.mem_append,
      List.not_mem_nil, or_false] at mem
    rcases mem with brace | mem | brace
    · cases brace
    · rcases Element.isLetter_or_eq_of_mem_body mem with letter | colon
      · cases letter
      · cases colon
    · cases brace
  have joined : ∀ es : List Element, ']' ∉ Text.join "," (es.map Element.literal) := by
    intro es
    induction es with
    | nil => exact List.not_mem_nil
    | cons e es ih =>
        cases es with
        | nil =>
            rw [List.map_singleton, Text.join_singleton]
            exact inClause e
        | cons e' es =>
            rw [List.map_cons, List.map_cons, Text.join_cons_cons, List.mem_append,
              List.mem_append, not_or, not_or]
            exact ⟨inClause e, by decide, ih⟩
  exact joined p.components

/-! ### Components -/

/-- The components of a pizza conflict exactly where its toppings are repeated, since there is one
component of each base kind. -/
theorem compatible_components_iff {p : Pizza} : Compatible p.components ↔ p.toppings.Nodup := by
  simp [Compatible, components, Element.Conflicts, Element.category, List.pairwise_map, List.Nodup]

theorem madeOf_components (p : Pizza) : p.MadeOf p.components where
  crust := Or.inl (by simp [components])
  sauce := Or.inl (by simp [components])
  cheese := Or.inl (by simp [components])
  toppings := by
    show p.toppings = (p.toppings.map Element.topping).filterMap Element.arrangement?
    rw [List.filterMap_map]
    exact List.filterMap_some.symm

/-- The literal of a pizza without a repeated arrangement is read as that pizza.  The order of the
toppings is kept. -/
theorem ofText_literalBody {p : Pizza} (distinct : p.toppings.Nodup) :
    ofText p.literalBody = .ok p := by
  rw [ofText_literalBody_eq]
  exact ofElements_eq_ok (compatible_components_iff.mpr distinct) (madeOf_components p)

/-- The literal of a pizza with a repeated arrangement is refused for the first one that is.  Such
a pizza cannot be ordered, but it can be described. -/
theorem ofText_literalBody_of_repeated {p : Pizza} {before behind : List Arrangement}
    {a : Arrangement} (split : p.toppings = before ++ a :: behind) (distinct : before.Nodup)
    (mem : a ∈ before) : ofText p.literalBody = .error (.duplicate a) := by
  let front : Pizza := { p with toppings := before }
  have parts : p.components = front.components ++ .topping a :: behind.map .topping := by
    simp [components, split, front]
  have repeated : Element.topping a ∈ front.components := by
    simp [components, front, mem]
  rw [ofText_literalBody_eq, parts]
  exact ofElements_eq_error (compatible_components_iff.mpr distinct) repeated (Or.inr rfl)

/-- No literal is read as a pizza with a repeated arrangement.  Every pizza that comes from a text
is therefore one whose literal is read back. -/
theorem nodup_of_ofText {t : Text} {p : Pizza} (read : ofText t = .ok p) :
    p.toppings.Nodup := by
  obtain ⟨clauses, -, read⟩ := Except.bind_eq_ok_iff.mp read
  obtain ⟨es, -, read⟩ := Except.bind_eq_ok_iff.mp read
  obtain ⟨compatible, made⟩ := ofElements_eq_ok_iff.mp read
  rw [made.toppings]
  exact compatible.nodup_arrangements

theorem interior_literal (p : Pizza) : p.literal.interior = p.literalBody :=
  Text.interior_enclosed '[' ']' p.literalBody

/-- **Pizzas and their literals.**  The text between the brackets of a pizza's literal is read as
that pizza, component by component and with its toppings in their order, if no arrangement is
repeated.  Else it is refused for the first arrangement that is equal to an earlier one.  Whatever
text is read as a pizza, the pizza has no repeated arrangement, and its own literal is read as
that pizza again. -/
theorem ofText_literal_exact :
    (∀ p : Pizza,
      (p.toppings.Nodup → ofText p.literal.interior = .ok p) ∧
        (¬ p.toppings.Nodup → ∃ before a behind, p.toppings = before ++ a :: behind ∧
          before.Nodup ∧ a ∈ before ∧ ofText p.literal.interior = .error (.duplicate a))) ∧
      ∀ t p, ofText t = .ok p → p.toppings.Nodup ∧ ofText p.literal.interior = .ok p := by
  refine ⟨fun p => ⟨?_, ?_⟩, ?_⟩
  · intro distinct
    rw [interior_literal]
    exact ofText_literalBody distinct
  · intro repeated
    rcases List.pairwise_or_exists_first (· ≠ ·) p.toppings with
      distinct | ⟨before, a, behind, split, distinct, b, mem, same⟩
    · exact absurd distinct repeated
    · obtain rfl := not_not.mp same
      refine ⟨before, b, behind, split, distinct, mem, ?_⟩
      rw [interior_literal]
      exact ofText_literalBody_of_repeated split distinct mem
  · intro t p read
    have distinct := nodup_of_ofText read
    rw [interior_literal]
    exact ⟨distinct, ofText_literalBody distinct⟩

end Pizza

end Pizzeria
