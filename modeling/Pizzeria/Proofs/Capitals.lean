import Pizzeria.Proofs.Scanning
import Pizzeria.Token.Decoding

/-!
# Words and literals in either case

The language looks at a character in two ways only: it asks for its class, which all
letters share, or it looks up the capitals of the word that it stands in.  So two texts
that differ in the case of letters, and in nothing else, are told apart by no word table,
and the literals in them mean the same.  Only what a string contains, and what a report
cites, is kept as it was written.

## Main Definitions

* `SameLetter`, `Text.Alike` — equal up to the case of letters.
* `Pizza.Awaiting.Alike` — the same stage of a literal, with clauses that are alike.
* `Pizza.Fault.SameKind` — faults that are reported under one kind.

## Main Results

* `SameLetter.congr` — what no letter is singled out for does not depend on the case.
* `Text.Alike.upper_eq` — texts that are alike have the same capitals.
* `Integer.read_alike`, `Element.ofText_alike`, `Pizza.ofText_alike` — literals that are
  alike mean the same.
-/

/-- Members that `f` takes to the same are a matter of the lists that `f` takes them to.  So texts
that are alike letter by letter are those with the same capitals, which is how words are looked
up. -/
theorem List.forall₂_iff_map_eq {α β : Type} {f : α → β} {as bs : List α} :
    List.Forall₂ (fun a b => f a = f b) as bs ↔ as.map f = bs.map f := by
  rw [← List.forall₂_map_right_iff (R := fun a c => f a = c),
    ← List.forall₂_map_left_iff (R := fun c c' => c = c'), List.forall₂_eq_eq_eq]

namespace Pizzeria

/-! ### Characters -/

/-- The characters are equal, or one letter in either case. -/
def SameLetter (c d : Char) : Prop := c.toUpper = d.toUpper

namespace SameLetter

variable {c d : Char}

/-- The other case of a letter is a letter, so both texts have letters at the same places. -/
theorem isLetter_eq (same : SameLetter c d) : isLetter c = isLetter d := by
  rw [← isLetter_toUpper c, ← isLetter_toUpper d, same]

/-- Only letters have capitals of their own.  What is not a letter is left as it is, and is
therefore the same in texts that are alike. -/
theorem toUpper_of_not_isLetter (other : isLetter c = false) : c.toUpper = c := by
  unfold Char.toUpper
  split
  · rename_i lower
    have isLower : c.isLower = true :=
      Bool.and_eq_true_iff.mpr ⟨decide_eq_true lower.1, decide_eq_true lower.2⟩
    rw [show isLetter c = true from Bool.or_eq_true_iff.mpr (Or.inr isLower)] at other
    cases other
  · rfl

/-- Characters that differ only by case are the same or both letters.  Every lemma about a class
of characters is a case split along this. -/
theorem eq_or_letters (same : SameLetter c d) :
    c = d ∨ isLetter c = true ∧ isLetter d = true := by
  cases letter : isLetter c with
  | true => exact Or.inr ⟨rfl, same.isLetter_eq ▸ letter⟩
  | false =>
      have other : isLetter d = false := same.isLetter_eq ▸ letter
      refine Or.inl ?_
      rw [← toUpper_of_not_isLetter letter, ← toUpper_of_not_isLetter other]
      exact same

/-- What is the same for all letters does not depend on their case.  The classes of the language
are all of this sort: to each of them either every letter belongs or none does. -/
theorem congr {α : Type} (f : Char → α) {x : α} (letters : ∀ e, isLetter e = true → f e = x)
    (same : SameLetter c d) : f c = f d := by
  rcases same.eq_or_letters with rfl | ⟨left, right⟩
  · rfl
  · rw [letters c left, letters d right]

theorem isSpace_eq (same : SameLetter c d) : isSpace c = isSpace d :=
  same.congr isSpace fun _ letter => isSpace_eq_false_of_isLetter letter

theorem endsWord_eq (same : SameLetter c d) : endsWord c = endsWord d :=
  same.congr endsWord fun _ letter => endsWord_eq_false_of_isLetter letter

/-- Literals are opened at the same places, with the same closers and kinds. -/
theorem bracket?_eq (same : SameLetter c d) : bracket? c = bracket? d :=
  same.congr bracket? fun _ letter => (Lexeme.plain_of_class rfl letter).2

theorem isClauseMark_eq (same : SameLetter c d) : isClauseMark c = isClauseMark d := by
  refine same.congr isClauseMark (x := false) fun e letter => ?_
  by_contra mark
  simp only [isClauseMark, Bool.not_eq_false, Bool.or_eq_true, beq_iff_eq] at mark
  rcases mark with (rfl | rfl) | rfl <;> exact absurd letter (by decide)

theorem isAscii_eq (same : SameLetter c d) : isAscii c = isAscii d := by
  refine same.congr isAscii (x := true) fun e letter => ?_
  have bounds := toNat_of_isLetter letter
  exact decide_eq_true (by omega)

/-- No letter is a digit, so a numeral is the same in every case. -/
theorem isDigit_eq_false_of_isLetter (letter : isLetter c = true) : c.isDigit = false := by
  have bounds := toNat_of_isLetter letter
  refine Bool.and_eq_false_iff.mpr (Or.inr (decide_eq_false fun digit => ?_))
  have high : c.toNat ≤ 57 := UInt32.le_iff_toNat_le.mp digit
  omega

/-- A character other than a letter has no other case.  The separators and closers that texts are
searched for are such characters. -/
theorem eq_iff {mark : Char} (other : isLetter mark = false) (same : SameLetter c d) :
    c = mark ↔ d = mark := by
  rw [← decide_eq_decide]
  refine same.congr (decide <| · = mark) (x := false) fun e letter => ?_
  refine decide_eq_false ?_
  rintro rfl
  rw [letter] at other
  cases other

end SameLetter

/-! ### Texts -/

/-- The texts are equally long, and equal up to the case of letters. -/
abbrev Text.Alike (a b : Text) : Prop := List.Forall₂ SameLetter a b

namespace Text.Alike

variable {a b : Text}

theorem upper_eq (alike : Alike a b) : a.upper = b.upper := List.forall₂_iff_map_eq.mp alike

/-- The white space in front of both texts is the same, and as long; what is left is alike. -/
theorem dropWhile_isSpace (alike : Alike a b) :
    Alike (a.dropWhile isSpace) (b.dropWhile isSpace) := by
  induction alike with
  | nil => exact .nil
  | @cons c d a b same alike ih =>
      rw [List.dropWhile_cons, List.dropWhile_cons, same.isSpace_eq]
      split
      · exact ih
      · exact .cons same alike

theorem trim (alike : Alike a b) : Alike a.trim b.trim :=
  List.rel_reverse (dropWhile_isSpace (List.rel_reverse alike.dropWhile_isSpace))

/-- Without their first and last characters the texts are alike still.  Nothing has to be known
about these two. -/
theorem interior (alike : Alike a b) : Alike a.interior b.interior := by
  unfold Text.interior
  rw [List.dropLast_eq_take, List.dropLast_eq_take, ← List.drop_one, ← List.drop_one]
  have tails := List.forall₂_drop 1 alike
  rw [tails.length_eq]
  exact List.forall₂_take _ tails

/-- A test that does not see the case of letters passes for both texts or for none.  Being ASCII,
as strings have to be, is such a test. -/
theorem all_eq {p : Char → Bool} (seen : ∀ c d, SameLetter c d → p c = p d)
    (alike : Alike a b) : a.all p = b.all p := by
  induction alike with
  | nil => rfl
  | cons same _ ih => rw [List.all_cons, List.all_cons, seen _ _ same, ih]

/-- No word ends inside a text that is like a part of a word.  So a word goes as far in one text
as in the other. -/
theorem inside (alike : Alike a b) (never : ∀ c ∈ a, endsWord c = false) :
    ∀ d ∈ b, endsWord d = false := by
  induction alike with
  | nil => exact never
  | @cons c d a b same _ ih =>
      intro e mem
      rcases List.mem_cons.mp mem with rfl | mem
      · rw [← same.endsWord_eq]
        exact never c List.mem_cons_self
      · exact ih (fun c mem => never c (List.mem_cons_of_mem _ mem)) e mem

/-- A character other than a letter stands in both texts or in none.  This is how the end of a
literal is carried over. -/
theorem notMem {mark : Char} (other : isLetter mark = false) (alike : Alike a b)
    (absent : mark ∉ a) : mark ∉ b := by
  induction alike with
  | nil => exact absent
  | cons same _ ih =>
      rw [List.mem_cons, not_or] at absent ⊢
      refine ⟨fun found => ?_, ih absent.2⟩
      exact absent.1 ((same.eq_iff other).mpr found.symm).symm

/-- What is like two texts one after the other is two texts one after the other.  Lexemes are cut
from the front, and this gives the lexeme that corresponds and the rest that corresponds. -/
theorem exists_append {w rest : Text} (alike : Alike (w ++ rest) b) :
    ∃ w' rest', b = w' ++ rest' ∧ Alike w w' ∧ Alike rest rest' := by
  have front := List.forall₂_take w.length alike
  have back := List.forall₂_drop w.length alike
  rw [List.take_left] at front
  rw [List.drop_left] at back
  exact ⟨_, _, (List.take_append_drop w.length b).symm, front, back⟩

/-- Texts that are alike are split at the same places, into parts that are alike.  The separator
has to be no letter. -/
theorem splitOn {sep : Char} (other : isLetter sep = false) (alike : Alike a b) :
    List.Forall₂ Alike (a.splitOn sep) (b.splitOn sep) := by
  induction alike with
  | nil => exact .cons .nil .nil
  | @cons c d a b same _ ih =>
      obtain ⟨part, parts, left⟩ := List.exists_cons_of_ne_nil (List.splitOn_ne_nil sep a)
      by_cases separates : c = sep
      · have separates' := (same.eq_iff other).mp separates
        subst separates separates'
        rw [splitOn_cons_self, splitOn_cons_self]
        exact .cons .nil ih
      · obtain ⟨part', parts', right⟩ := List.exists_cons_of_ne_nil (List.splitOn_ne_nil sep b)
        rw [left, right, List.forall₂_cons] at ih
        rw [splitOn_cons_of_ne separates left,
          splitOn_cons_of_ne (mt (same.eq_iff other).mpr separates) right]
        exact .cons (.cons same ih.1) ih.2

end Text.Alike

/-- Words are looked up in capitals, so nothing else about them matters.  This is the one place
where letter case is made to disappear; everything else carries it along. -/
theorem findWord_congr {α : Type} (table : List (Text × α)) {a b : Text}
    (capitals : a.upper = b.upper) : findWord table a = findWord table b := by
  rw [findWord, findWord, capitals]

/-! ### Integers -/

namespace Integer

/-- Reading digits stops with a fault at the first letter in both texts, and there is no
difference in front of it. -/
theorem readDigits_alike {a b : Text} (alike : Text.Alike a b) (sign acc : Int) :
    readDigits sign acc a = readDigits sign acc b := by
  induction alike generalizing acc with
  | nil => rfl
  | @cons c d a b same _ ih =>
      rw [readDigits, readDigits]
      rcases same.eq_or_letters with rfl | ⟨left, right⟩
      · rw [ih]
      · rw [SameLetter.isDigit_eq_false_of_isLetter left,
          SameLetter.isDigit_eq_false_of_isLetter right]
        rfl

theorem readMagnitude_alike {a b : Text} (alike : Text.Alike a b) (sign : Int) :
    readMagnitude sign a = readMagnitude sign b := by
  cases alike with
  | nil => rfl
  | cons same alike => exact readDigits_alike (.cons same alike) sign 0

/-- A numeral without a sign is read as its magnitude.  The sign is looked at first, and neither
sign is a letter. -/
theorem read_of_unsigned {c : Char} (plus : c ≠ '+') (minus : c ≠ '-') (t : Text) :
    read (c :: t) = (readMagnitude 1 (c :: t)).map Int32.ofInt := by
  unfold read
  split
  · rename_i same
    exact absurd (List.cons.inj same).1 plus
  · rename_i same
    exact absurd (List.cons.inj same).1 minus
  · rfl

/-- A numeral has no letters, and a text with letters is no numeral.  Both texts are refused for
the same reason then, though the report quotes them as they are. -/
theorem read_alike {a b : Text} (alike : Text.Alike a b) : read a = read b := by
  cases alike with
  | nil => rfl
  | @cons c d a b same alike =>
      by_cases plus : c = '+'
      · obtain rfl := plus
        obtain rfl := (same.eq_iff rfl).mp rfl
        show (readMagnitude 1 a).map Int32.ofInt = (readMagnitude 1 b).map Int32.ofInt
        rw [readMagnitude_alike alike]
      by_cases minus : c = '-'
      · obtain rfl := minus
        obtain rfl := (same.eq_iff rfl).mp rfl
        show (readMagnitude (-1) a).map Int32.ofInt = (readMagnitude (-1) b).map Int32.ofInt
        rw [readMagnitude_alike alike]
      · rw [read_of_unsigned plus minus,
          read_of_unsigned (mt (same.eq_iff rfl).mpr plus) (mt (same.eq_iff rfl).mpr minus),
          readMagnitude_alike (.cons same alike)]

end Integer

/-! ### Pizza literals -/

namespace Pizza

/-- The faults are reported under one kind. -/
def Fault.SameKind (f g : Fault) : Prop := f.kind = g.kind

/-- The same mark is due, and what a clause reads so far is alike. -/
inductive Awaiting.Alike : Awaiting → Awaiting → Prop where
  | opening : Alike .opening .opening
  | closing {a b : Text} (alike : Text.Alike a b) : Alike (.closing a) (.closing b)
  | comma : Alike .comma .comma

/-- The outcomes for two literals are faults of one kind, or answers that `R` relates. -/
abbrev SameOutcome {α : Type} (R : α → α → Prop) : Except Fault α → Except Fault α → Prop :=
  Except.Rel Fault.SameKind R

/-- Literals that are alike are cut into clauses that are alike.  The induction is on the literal;
what a clause has so far is alike by the time it is complete. -/
theorem clausesFrom_alike {due due' : Awaiting} (dues : due.Alike due') {a b : Text}
    (alike : Text.Alike a b) :
    SameOutcome (List.Forall₂ Text.Alike) (clausesFrom due a) (clausesFrom due' b) := by
  induction alike generalizing due due' with
  | nil =>
      cases dues with
      | opening | closing _ => exact .error rfl
      | comma => exact .ok .nil
  | @cons c d a b same _ ih =>
      have clauseMark : isClauseMark c = true ↔ isClauseMark d = true := by
        rw [same.isClauseMark_eq]
      have space : isSpace c = true ↔ isSpace d = true := by
        rw [same.isSpace_eq]
      cases dues with
      | opening =>
          rw [clausesFrom, clausesFrom]
          refine .ite (same.eq_iff rfl) (ih (.closing (.cons same .nil))) ?_
          exact .ite clauseMark (.error rfl) (.ite space (ih .opening) (.error rfl))
      | closing clause =>
          have longer := List.rel_append clause (.cons same .nil)
          rw [clausesFrom, clausesFrom]
          refine .ite (same.eq_iff rfl) ?_ (.ite clauseMark (.error rfl) (ih (.closing longer)))
          exact (ih .comma).map fun _ _ others => .cons longer others
      | comma =>
          rw [clausesFrom, clausesFrom]
          refine .ite (same.eq_iff rfl) (ih .opening) ?_
          exact .ite clauseMark (.error rfl) (.ite space (ih .comma) (.error rfl))

theorem clauses_alike {a b : Text} (alike : Text.Alike a b) :
    SameOutcome (List.Forall₂ Text.Alike) (clauses a) (clauses b) := by
  have blank : a.isBlank = b.isBlank := alike.all_eq fun _ _ same => same.isSpace_eq
  exact .ite (by rw [blank]) (.ok .nil) (clausesFrom_alike .opening alike)

end Pizza

namespace Element

open Pizza (SameOutcome)

variable {a b : Text}

/-- The word in front of a colon, and the word behind it, are looked up in capitals.  The kinds of
component have their own tables, so the reader has to be the same first. -/
theorem reader?_congr {kind kind' : Text} (kinds : kind.upper = kind'.upper) :
    reader? kind = reader? kind' := by
  rw [reader?, reader?, kinds, Position.ofWord?, Position.ofWord?, findWord_congr _ kinds]

/-- A reader of values looks its word up in capitals, whichever kind it is for. -/
theorem read_congr {kind : Text} {read : Text → Option Element} (found : reader? kind = some read)
    (values : a.upper = b.upper) : read a = read b := by
  unfold reader? at found
  split at found
  · obtain rfl := Option.some.inj found
    exact congrArg _ (findWord_congr _ values)
  split at found
  · obtain rfl := Option.some.inj found
    exact congrArg _ (findWord_congr _ values)
  split at found
  · obtain rfl := Option.some.inj found
    exact congrArg _ (findWord_congr _ values)
  · obtain ⟨position, -, rfl⟩ := Option.map_eq_some_iff.mp found
    exact congrArg _ (findWord_congr _ values)

/-- A bare word is tried in all tables, and in each of them its case does not matter. -/
theorem ofWord?_congr (words : a.upper = b.upper) : ofWord? a = ofWord? b := by
  have crust : Crust.ofWord? a = Crust.ofWord? b := findWord_congr _ words
  have sauce : Sauce.ofWord? a = Sauce.ofWord? b := findWord_congr _ words
  have cheese : Cheese.ofWord? a = Cheese.ofWord? b := findWord_congr _ words
  have topping : Topping.ofWord? a = Topping.ofWord? b := findWord_congr _ words
  rw [ofWord?, ofWord?, crust, sauce, cheese, topping]

/-- A kind and a value give the same element in every case, or are refused for the same reason. -/
theorem explicit_alike {kind kind' : Text} (kinds : kind.upper = kind'.upper)
    (values : a.upper = b.upper) : SameOutcome Eq (explicit kind a) (explicit kind' b) := by
  rw [explicit, explicit, reader?_congr kinds]
  cases found : reader? kind' with
  | none => exact .error rfl
  | some read =>
      simp only [read_congr found values]
      cases read b with
      | none => exact .error rfl
      | some element => exact .ok rfl

/-- A bare word gives the same element in every case.  That it is ambiguous is decided in capitals
too. -/
theorem inferred_alike (words : a.upper = b.upper) : SameOutcome Eq (inferred a) (inferred b) := by
  rw [inferred, inferred, words, ofWord?_congr words]
  refine .ite Iff.rfl (.error rfl) ?_
  cases ofWord? b with
  | none => exact .error rfl
  | some element => exact .ok rfl

/-- Clauses that are alike give the same element.  They are trimmed and split at the same places,
and their words are looked up in capitals. -/
theorem ofText_alike (alike : Text.Alike a b) : SameOutcome Eq (ofText a) (ofText b) := by
  rw [ofText, ofText]
  have trimmed := alike.trim
  generalize a.trim = left, b.trim = right at trimmed
  cases trimmed with
  | nil => exact .error rfl
  | @cons c d left right same tail =>
      have whole : Text.Alike (c :: left) (d :: right) := .cons same tail
      have parts := whole.splitOn (show isLetter ':' = false from rfl)
      dsimp only [Text.split]
      generalize (c :: left).splitOn ':' = ps, (d :: right).splitOn ':' = qs at parts
      cases parts with
      | nil => exact .error rfl
      | cons first others =>
          cases others with
          | nil => exact inferred_alike first.upper_eq
          | cons second others =>
              cases others with
              | nil => exact explicit_alike first.trim.upper_eq second.trim.upper_eq
              | cons _ _ => exact .error rfl

end Element

/-- Literals that are alike mean the same pizza.  Unlike a name, a pizza keeps nothing of the case
in which it was written. -/
theorem Pizza.ofText_alike {a b : Text} (alike : Text.Alike a b) :
    SameOutcome Eq (ofText a) (ofText b) := by
  refine (clauses_alike alike).bind fun cs ds clauses => ?_
  have elements : SameOutcome (List.Forall₂ Eq) (Element.ofClauses cs) (Element.ofClauses ds) :=
    Except.Rel.mapM clauses fun c d same => Element.ofText_alike same.interior
  refine elements.bind fun es fs same => ?_
  obtain rfl := List.forall₂_eq_eq_eq ▸ same
  exact .of_eq (fun _ => rfl) rfl

end Pizzeria
