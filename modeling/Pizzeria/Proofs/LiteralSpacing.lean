import Mathlib.Data.List.TakeWhile
import Pizzeria.Proofs.ClauseGrammar
import Pizzeria.Proofs.Words

/-!
# White space in pizza literals

White space around the punctuation of a pizza literal, and at its ends, does not matter: neither
for the pizza that the literal means nor for the fault that it is refused for.

White space is dropped in three places: outside the clauses, at the ends of a clause, and on each
side of a colon.  The last two are one, because the parts of a clause between its colons are
trimmed in any case (`Element.ofText_eq_ofParts`).  So it is enough to see that cutting puts white
space that was added inside a clause to an end of one of its parts, and loses all other.

## Main Definitions

* `Text.Framed` — white space added at the ends of a text.
* `Text.Padded`, `Text.Respaced` — white space added around some of the characters of a text, and
  at its ends.

## Main Results

* `Text.Respaced.map_trim_split` — the trimmed parts of a text stay the same.
* `Element.ofText_of_respaced` — a clause means the same.
* `Pizza.clausesFrom_padded` — clauses are cut alike.
-/

namespace Pizzeria

/-- The punctuation of a pizza literal: the marks of its clauses, and the colon inside them. -/
def isPunctuation (c : Char) : Bool := isClauseMark c || c == ':'

namespace Text

variable {t u : Text}

/-! ### White space at the ends -/

/-- The second text is the first with white space added at its ends. -/
def Framed (t u : Text) : Prop :=
  ∃ lead trail : Text, lead.isBlank = true ∧ trail.isBlank = true ∧ u = lead ++ (t ++ trail)

theorem isSpace_of_mem_blank {gap : Text} (blank : gap.isBlank = true) :
    ∀ c ∈ gap, isSpace c = true :=
  List.all_eq_true.mp blank

/-- White space holds no character of another sort, so no separator comes in with it. -/
theorem notMem_blank {c : Char} (solid : isSpace c = false) {gap : Text}
    (blank : gap.isBlank = true) : c ∉ gap := by
  intro mem
  cases solid.symm.trans (isSpace_of_mem_blank blank c mem)

/-- White space in front is trimmed off together with what was there before. -/
theorem trim_blank_append {lead : Text} (blank : lead.isBlank = true) (t : Text) :
    trim (lead ++ t) = trim t := by
  unfold trim
  rw [List.dropWhile_append_of_pos (isSpace_of_mem_blank blank)]

theorem trim_append_blank {trail : Text} (blank : trail.isBlank = true) (t : Text) :
    trim (t ++ trail) = trim t := by
  have spaces := isSpace_of_mem_blank blank
  unfold trim
  rw [List.dropWhile_append]
  split
  · rename_i all
    rw [List.isEmpty_iff.mp all, List.dropWhile_eq_nil_iff.mpr spaces]
  · have reversed : ∀ c ∈ trail.reverse, isSpace c = true := fun c mem =>
      spaces c (List.mem_reverse.mp mem)
    rw [List.reverse_append, List.dropWhile_append_of_pos reversed]

theorem Framed.trim_eq (framed : Framed t u) : u.trim = t.trim := by
  obtain ⟨lead, trail, before, behind, rfl⟩ := framed
  rw [trim_blank_append before, trim_append_blank behind]

/-- What trimming takes off a text is white space at its ends.  So a text is its trimmed form,
framed, and every fact about frames applies to trimming. -/
theorem framed_trim (t : Text) : Framed t.trim t := by
  refine ⟨t.takeWhile isSpace, ((t.dropWhile isSpace).reverse.takeWhile isSpace).reverse, ?_, ?_, ?_⟩
  · exact List.all_eq_true.mpr fun c mem => List.mem_takeWhile_imp mem
  · exact List.all_eq_true.mpr fun c mem => List.mem_takeWhile_imp (List.mem_reverse.mp mem)
  · rw [trim, ← List.reverse_append, List.takeWhile_append_dropWhile, List.reverse_reverse,
      List.takeWhile_append_dropWhile]

/-- Trimming twice is trimming once.  A clause is trimmed as a whole and then part by part. -/
theorem trim_trim (t : Text) : t.trim.trim = t.trim := (framed_trim t).trim_eq.symm

/-! ### White space around characters -/

/-- The second text is the first with white space added around characters that satisfy `p`. -/
inductive Padded (p : Char → Bool) : Text → Text → Prop where
  | nil : Padded p [] []
  | cons {c : Char} {pre post t u : Text} (before : pre.isBlank = true)
      (behind : post.isBlank = true) (chosen : p c = true ∨ pre = [] ∧ post = [])
      (tail : Padded p t u) : Padded p (c :: t) (pre ++ c :: (post ++ u))

/-- The second text is the first with white space added around characters that satisfy `p`, and
at its ends. -/
def Respaced (p : Char → Bool) (t u : Text) : Prop := ∃ padded, Padded p t padded ∧ Framed padded u

namespace Padded

variable {p : Char → Bool}

theorem refl (t : Text) : Padded p t t := by
  induction t with
  | nil => exact .nil
  | cons c t ih => exact @cons p c [] [] t t rfl rfl (Or.inr ⟨rfl, rfl⟩) ih

/-- Padding goes piece by piece, so padded texts can be put together. -/
theorem append {t' u' : Text} (first : Padded p t u) (second : Padded p t' u') :
    Padded p (t ++ t') (u ++ u') := by
  induction first with
  | nil => exact second
  | @cons c pre post t u before behind chosen _ ih =>
      have whole := Padded.cons before behind chosen ih
      simpa using whole

/-- Padding adds white space only, so a text that was blank stays so and no other becomes so. -/
theorem isBlank_eq (padded : Padded p t u) : u.isBlank = t.isBlank := by
  induction padded with
  | nil => rfl
  | @cons c pre post t u before behind _ _ ih =>
      unfold isBlank at before behind ih ⊢
      rw [List.all_append, List.all_cons, List.all_append, before, behind, ih, Bool.true_and,
        Bool.true_and, List.all_cons]

end Padded

theorem Framed.isBlank_eq (framed : Framed t u) : u.isBlank = t.isBlank := by
  obtain ⟨lead, trail, before, behind, rfl⟩ := framed
  unfold isBlank at before behind ⊢
  rw [List.all_append, List.all_append, before, behind, Bool.true_and, Bool.and_true]

/-! ### Parts -/

/-- The first part has white space added behind it, and every other part around it. -/
inductive Widened : List Text → List Text → Prop where
  | mk {first gap : Text} {others others' : List Text} (blank : gap.isBlank = true)
      (framed : List.Forall₂ Framed others others') :
      Widened (first :: others) ((first ++ gap) :: others')

/-- White space around separators widens the parts between them: what was added in front of a
separator ends a part, and what was added behind it begins one.  Neither the number of parts nor
what is in them changes. -/
theorem Padded.widened {sep : Char} (solid : isSpace sep = false) (padded : Padded (· == sep) t u)
    {trail : Text} (blank : trail.isBlank = true) :
    Widened (t.splitOn sep) ((u ++ trail).splitOn sep) := by
  induction padded with
  | nil =>
      rw [List.nil_append, List.splitOn_eq_singleton (notMem_blank solid blank)]
      exact @Widened.mk [] trail [] [] blank .nil
  | @cons c pre post t u before behind chosen _ ih =>
      rw [List.append_assoc, List.cons_append, List.append_assoc]
      generalize parts : t.splitOn sep = ps, parts' : (u ++ trail).splitOn sep = qs at ih
      obtain @⟨first, gap, others, others', inner, framed⟩ := ih
      by_cases separator : c = sep
      · -- The white space in front of the separator ends a part, and that behind it begins one.
        subst separator
        rw [splitOn_cons_self, parts,
          List.splitOn_append_cons_self_of_not_mem (notMem_blank solid before),
          splitOn_append_of_notMem (notMem_blank solid behind) parts']
        exact @Widened.mk [] pre _ _ before (.cons ⟨post, gap, behind, inner, rfl⟩ framed)
      · obtain ⟨rfl, rfl⟩ := chosen.resolve_left (by simpa using separator)
        rw [List.nil_append, List.nil_append, splitOn_cons_of_ne separator parts,
          splitOn_cons_of_ne separator parts']
        exact @Widened.mk (c :: first) gap _ _ inner framed

theorem map_trim_of_framed {ps qs : List Text} (framed : List.Forall₂ Framed ps qs) :
    qs.map trim = ps.map trim := by
  induction framed with
  | nil => rfl
  | cons first _ ih => rw [List.map_cons, List.map_cons, first.trim_eq, ih]

/-- White space around separators, and at the ends, leaves the trimmed parts as they are.  This is
why a colon may have blanks around it. -/
theorem Respaced.map_trim_split {sep : Char} (solid : isSpace sep = false)
    (respaced : Respaced (· == sep) t u) : (u.splitOn sep).map trim = (t.splitOn sep).map trim := by
  obtain ⟨_, padded, lead, trail, before, behind, rfl⟩ := respaced
  have widened := padded.widened solid behind
  generalize t.splitOn sep = ps, parts : (_ ++ trail).splitOn sep = qs at widened
  obtain @⟨first, gap, others, others', blank, framed⟩ := widened
  rw [splitOn_append_of_notMem (notMem_blank solid before) parts, List.map_cons, List.map_cons,
    trim_blank_append before, trim_append_blank blank, map_trim_of_framed framed]

/-- A frame is spacing of the simplest kind, with nothing added inside. -/
theorem Framed.respaced {p : Char → Bool} (framed : Framed t u) : Respaced p t u :=
  ⟨t, .refl t, framed⟩

end Text

/-! ### Elements -/

namespace Element

/-- The element that the trimmed parts of a clause give, as its colons separate them. -/
def ofParts : List Text → Except Pizza.Fault Element
  | [word] => if word = [] then .error .emptyElement else inferred word
  | [kind, value] => explicit kind value
  | _ => .error .tooManyColons

/-- A clause can be trimmed part by part.  Reading it trims the clause first and then, only if
there is a colon, its parts; in this form the two cases are one, and spacing can be dealt with at
once. -/
theorem ofText_eq_ofParts (body : Text) : ofText body = ofParts ((body.splitOn ':').map .trim) := by
  rw [(Text.framed_trim body).respaced.map_trim_split rfl, ofText]
  have trimmed := Text.trim_trim body
  generalize body.trim = word at trimmed ⊢
  cases word with
  | nil => rfl
  | cons c cs =>
      by_cases colon : ':' ∈ c :: cs
      · obtain ⟨kind, rest, place, first⟩ := List.eq_append_cons_of_mem colon
        obtain ⟨value, others, parts⟩ := List.exists_cons_of_ne_nil (List.splitOn_ne_nil ':' rest)
        simp only [place, List.splitOn_append_cons_self_of_not_mem first, parts]
        cases others <;> rfl
      · simp only [List.splitOn_eq_singleton colon, List.map_singleton, trimmed, ofParts]
        rw [if_neg (List.cons_ne_nil c cs)]

/-- White space around the colon of a clause and at its ends does not change its element. -/
theorem ofText_of_respaced {body body' : Text} (respaced : Text.Respaced (· == ':') body body') :
    ofText body' = ofText body := by
  rw [ofText_eq_ofParts, ofText_eq_ofParts, respaced.map_trim_split rfl]

end Element

/-! ### Clauses -/

namespace Pizza

open Text (Padded Framed Respaced)

/-- The same clause, with white space added at its ends and around colons. -/
def SameClause (clause clause' : Text) : Prop :=
  Respaced (· == ':') clause.interior clause'.interior

namespace Awaiting

/-- What is due behind white space: inside a clause it belongs to the clause. -/
def pastBlank (gap : Text) : Awaiting → Awaiting
  | opening => opening
  | closing clause => closing (clause ++ gap)
  | comma => comma

/-- The same is due, and a clause that was begun is the same so far, with white space added at its
beginning and around colons. -/
inductive Wider : Awaiting → Awaiting → Prop where
  | opening : Wider opening opening
  | closing {body body' lead : Text} (before : lead.isBlank = true)
      (padded : Padded (· == ':') body body') :
      Wider (closing ('{' :: body)) (closing ('{' :: (lead ++ body')))
  | comma : Wider comma comma

end Awaiting

/-- White space between the marks of a literal is kept inside a clause, and is skipped outside. -/
theorem clausesFrom_pastBlank (due : Awaiting) {gap : Text} (blank : gap.isBlank = true)
    (rest : Text) : clausesFrom due (gap ++ rest) = clausesFrom (due.pastBlank gap) rest := by
  cases due with
  | opening => exact clausesFrom_blank (Or.inl rfl) blank rest
  | closing clause =>
      refine clausesFrom_closing (fun c mem => ?_) clause rest
      exact isClauseMark_of_isSpace (Text.isSpace_of_mem_blank blank c mem)
  | comma => exact clausesFrom_blank (Or.inr rfl) blank rest

namespace Awaiting

theorem mark_pastBlank (due : Awaiting) (gap : Text) : (due.pastBlank gap).mark = due.mark := by
  cases due <;> rfl

/-- A clause that has more white space waits for the same mark, so both literals go on alike. -/
theorem Wider.mark_eq {due due' : Awaiting} (wider : Wider due due') : due'.mark = due.mark := by
  cases wider <;> rfl

/-- Outside the clauses, white space behind a character that is passed is passed as well; behind
an opening brace it begins the clause. -/
theorem wider_pastBlank_of_after? {due next : Awaiting} (outside : due = opening ∨ due = comma)
    {c : Char} (goes : due.after? c = some next) {gap : Text} (blank : gap.isBlank = true) :
    Wider next (next.pastBlank gap) := by
  have begun : Wider (closing ['{']) (closing ('{' :: (gap ++ []))) := .closing blank .nil
  rw [List.append_nil] at begun
  unfold after? at goes
  split at goes
  · rename_i mark
    subst mark
    rcases outside with rfl | rfl
    · cases goes
      exact begun
    · cases goes
      exact .opening
  · rw [Option.ite_none_left_eq_some] at goes
    obtain ⟨-, goes⟩ := goes
    rcases outside with rfl | rfl
    · rw [Option.ite_none_right_eq_some] at goes
      cases goes.2
      exact .opening
    · rw [Option.ite_none_right_eq_some] at goes
      cases goes.2
      exact .comma

/-- Inside a clause, no mark but the closing brace is allowed.  This refuses both literals at the
same character. -/
theorem after?_closing_of_isClauseMark {c : Char} (other : c ≠ '}') (mark : isClauseMark c = true)
    (clause : Text) : (closing clause).after? c = none := by
  rw [after?, Awaiting.mark, if_neg other, if_pos mark]

/-- Inside a clause, everything that is no mark belongs to it, white space included. -/
theorem after?_closing_of_plain {c : Char} (plain : isClauseMark c = false) (clause : Text) :
    (closing clause).after? c = some (closing (clause ++ [c])) := by
  have other : c ≠ '}' := by
    rintro rfl
    cases plain
  rw [after?, Awaiting.mark, if_neg other, if_neg (by simp [plain])]

/-- The parts of a clause that are alike complete the same clause.  What was added at its ends is
taken off when it is read. -/
theorem sameClause_of_padded {body body' lead trail : Text} (before : lead.isBlank = true)
    (behind : trail.isBlank = true) (padded : Padded (· == ':') body body') :
    SameClause ('{' :: (body ++ ['}'])) ('{' :: (lead ++ (body' ++ trail) ++ ['}'])) := by
  rw [SameClause, Text.interior_enclosed, Text.interior_enclosed]
  exact ⟨body', padded, lead, trail, before, behind, rfl⟩

/-- A character is refused, or passed, alike with white space around it: where it is passed, what
is due behind it is alike, and so is the clause that it completes. -/
theorem Wider.step {due due' : Awaiting} (wider : Wider due due') {c : Char} {pre post : Text}
    (before : pre.isBlank = true) (behind : post.isBlank = true)
    (chosen : isPunctuation c = true ∨ pre = [] ∧ post = []) :
    (due.after? c = none ∧ (due'.pastBlank pre).after? c = none) ∨
      ∃ next next', due.after? c = some next ∧ (due'.pastBlank pre).after? c = some next' ∧
        Wider next (next'.pastBlank post) ∧
        List.Forall₂ SameClause (due.completed c) ((due'.pastBlank pre).completed c) := by
  cases wider with
  | opening =>
      cases goes : Awaiting.opening.after? c with
      | none => exact Or.inl ⟨rfl, goes⟩
      | some next =>
          exact Or.inr ⟨next, next, rfl, goes,
            wider_pastBlank_of_after? (Or.inl rfl) goes behind, .nil⟩
  | comma =>
      cases goes : Awaiting.comma.after? c with
      | none => exact Or.inl ⟨rfl, goes⟩
      | some next =>
          exact Or.inr ⟨next, next, rfl, goes,
            wider_pastBlank_of_after? (Or.inr rfl) goes behind, .nil⟩
  | @closing body body' lead first padded =>
      by_cases closes : c = '}'
      · subst closes
        refine Or.inr ⟨_, _, rfl, rfl, .comma, .cons ?_ .nil⟩
        have same := sameClause_of_padded first before padded
        simpa using same
      · cases mark : isClauseMark c with
        | true =>
            exact Or.inl ⟨after?_closing_of_isClauseMark closes mark _,
              after?_closing_of_isClauseMark closes mark _⟩
        | false =>
            refine Or.inr ⟨_, _, after?_closing_of_plain mark _, after?_closing_of_plain mark _,
              ?_, ?_⟩
            · have colon : (c == ':') = true ∨ pre = [] ∧ post = [] := by
                rwa [isPunctuation, mark, Bool.false_or] at chosen
              have longer := Wider.closing first
                (padded.append (Padded.cons before behind colon .nil))
              simpa [pastBlank] using longer
            · simp [completed, pastBlank, closes]

end Awaiting

/-- Clauses are cut alike from a text with white space added around punctuation, or refused
alike. -/
theorem clausesFrom_padded {t u : Text} (padded : Padded isPunctuation t u) {trail : Text}
    (blank : trail.isBlank = true) {due due' : Awaiting} (wider : due.Wider due') :
    Except.Rel Eq (List.Forall₂ SameClause) (clausesFrom due t) (clausesFrom due' (u ++ trail)) := by
  induction padded generalizing due due' with
  | nil =>
      have ended := clausesFrom_pastBlank due' blank []
      rw [List.append_nil] at ended
      rw [List.nil_append, ended]
      cases wider with
      | opening => exact .error rfl
      | closing _ _ => exact .error rfl
      | comma => exact .ok .nil
  | @cons c pre post t u before behind chosen _ ih =>
      rw [List.append_assoc, List.cons_append, List.append_assoc, clausesFrom_pastBlank due' before]
      rcases wider.step before behind chosen with
        ⟨stops, stops'⟩ | ⟨next, next', goes, goes', wider', completed⟩
      · rw [clausesFrom_of_stop stops, clausesFrom_of_stop stops']
        refine .error ?_
        rw [Awaiting.refusal, Awaiting.refusal, Awaiting.mark_pastBlank, wider.mark_eq]
      · rw [clausesFrom_of_after? goes, clausesFrom_of_after? goes',
          clausesFrom_pastBlank next' behind]
        exact (ih wider').map fun _ _ others => List.rel_append completed others

/-- A literal with white space added around its punctuation has the same clauses, or is refused
for the same fault. -/
theorem clauses_respaced {t t' : Text} (respaced : t.Respaced isPunctuation t') :
    Except.Rel Eq (List.Forall₂ SameClause) (clauses t) (clauses t') := by
  obtain ⟨u, padded, framed⟩ := respaced
  unfold clauses
  rw [framed.isBlank_eq, padded.isBlank_eq]
  obtain ⟨lead, trail, before, behind, rfl⟩ := framed
  refine .ite Iff.rfl (.ok .nil) ?_
  rw [clausesFrom_blank (Or.inl rfl) before]
  exact clausesFrom_padded padded behind .opening

theorem ofClauses_congr {clauses clauses' : List Text}
    (same : List.Forall₂ SameClause clauses clauses') :
    Element.ofClauses clauses' = Element.ofClauses clauses := by
  unfold Element.ofClauses
  induction same with
  | nil => rfl
  | cons first _ ih => rw [List.mapM_cons, List.mapM_cons, Element.ofText_of_respaced first, ih]

/-- **White space around punctuation does not matter in a pizza literal.**  Add any white space
in front of, or behind, any of the braces, commas and colons of a text, and at both its ends: it
is read as the same pizza, or refused for the same fault. -/
theorem ofText_respaced {t t' : Text} (respaced : t.Respaced isPunctuation t') :
    ofText t' = ofText t := by
  refine (Except.Rel.eq ((clauses_respaced respaced).bind fun cs cs' clauses => ?_)).symm
  have elements : Element.ofClauses cs' = Element.ofClauses cs := ofClauses_congr clauses
  rw [elements]
  exact .of_eq (fun _ => rfl) rfl

/-- A misspelled topping is reported without the white space around it, so even the report is the
same. -/
theorem ofText_respaced_misspelled :
    Respaced isPunctuation "{LEFT:HAMM}" " { LEFT : HAMM }\n" ∧
      ofText "{LEFT:HAMM}" = .error (.unrecognized "HAMM") ∧
      ofText " { LEFT : HAMM }\n" = .error (.unrecognized "HAMM") := by
  have clause : Padded isPunctuation "{LEFT:HAMM}" "{ LEFT : HAMM }" :=
    @Padded.cons _ '{' [] [' '] _ _ rfl rfl (Or.inl rfl) <| .append (.refl "LEFT") <|
      @Padded.cons _ ':' [' '] [' '] _ _ rfl rfl (Or.inl rfl) <| .append (.refl "HAMM") <|
        @Padded.cons _ '}' [' '] [] [] [] rfl rfl (Or.inl rfl) .nil
  have respaced : Respaced isPunctuation "{LEFT:HAMM}" " { LEFT : HAMM }\n" :=
    ⟨_, clause, [' '], ['\n'], rfl, rfl, rfl⟩
  have refused : ofText "{LEFT:HAMM}" = .error (.unrecognized "HAMM") := by decide +kernel
  exact ⟨respaced, refused, (ofText_respaced respaced).trans refused⟩

end Pizza

end Pizzeria
