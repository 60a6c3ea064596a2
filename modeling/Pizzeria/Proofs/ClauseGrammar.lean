import Pizzeria.Pizza.Literal
import Pizzeria.Proofs.Outcome

/-!
# Texts that are lists of clauses

Which texts are cut into clauses, said without cutting: clauses in braces, with white space
around each of them and commas between them.  Inside a clause every character may stand that
is not a mark of the literal.

A text that is no such list, and not blank either, is refused at the first character with
which no such list can go on.  At each place only one mark can follow.  If the character is
another mark the refusal names both, and else the character; if the text ends there, it names
the mark that is missing.

## Main Definitions

* `Pizza.Listing` — a text is a list of clauses.
* `Pizza.Begins` — a list of clauses can begin with a text.
* `Pizza.Due` — the mark is the only one that can follow a text.
* `Pizza.Refused` — a text and the fault for which it is refused.

## Main Results

* `Pizza.Listing.clausesFrom_eq`, `Pizza.continues_of_clausesFrom` — cutting accepts lists of
  clauses, and nothing else.
* `Pizza.clausesFrom_of_past?` — a text is cut after its beginning.
* `Pizza.begins_iff` — a list of clauses can begin with what is read without a refusal.
-/

namespace Pizzeria

namespace Pizza

/-! ### Lists of clauses -/

/-- The text is a clause: braces around text without marks. -/
def IsClause (t : Text) : Prop :=
  ∃ body, (∀ c ∈ body, isClauseMark c = false) ∧ t = '{' :: (body ++ ['}'])

/-- The text consists of the clauses, with white space around each of them and commas between
them. -/
inductive Listing : Text → List Text → Prop where
  | last {lead clause trail : Text} (before : lead.isBlank = true) (is : IsClause clause)
      (behind : trail.isBlank = true) : Listing (lead ++ (clause ++ trail)) [clause]
  | cons {lead clause trail rest : Text} {clauses : List Text} (before : lead.isBlank = true)
      (is : IsClause clause) (behind : trail.isBlank = true) (others : Listing rest clauses) :
      Listing (lead ++ (clause ++ (trail ++ ',' :: rest))) (clause :: clauses)

/-- A list of clauses can begin with the text. -/
def Begins (front : Text) : Prop := ∃ rest clauses, Listing (front ++ rest) clauses

/-- The mark is the only one with which a list of clauses can go on behind the text. -/
def Due (front : Text) (mark : Char) : Prop :=
  isClauseMark mark = true ∧ ∀ m, isClauseMark m = true → (Begins (front ++ [m]) ↔ m = mark)

/-- The text is refused for the fault: at the first character with which no list of clauses can
go on, or at its end. -/
inductive Refused (text : Text) : Fault → Prop where
  /-- A mark stands where another one is due. -/
  | mismatch {front rest : Text} {expected found : Char} (place : text = front ++ found :: rest)
      (begins : Begins front) (stops : ¬ Begins (front ++ [found]))
      (mark : isClauseMark found = true) (due : Due front expected) :
      Refused text (.mismatch expected found)
  /-- A character other than a mark stands outside the clauses. -/
  | errant {front rest : Text} {found : Char} (place : text = front ++ found :: rest)
      (begins : Begins front) (stops : ¬ Begins (front ++ [found]))
      (plain : isClauseMark found = false) : Refused text (.errant found)
  /-- No character is wrong, but a list of clauses would have to go on. -/
  | unterminated {expected : Char} (begins : Begins text) (notBlank : text.isBlank = false)
      (incomplete : ¬ ∃ clauses, Listing text clauses) (due : Due text expected) :
      Refused text (.unterminated expected)

/-! ### One character -/

namespace Awaiting

/-- What is due behind the character; `none` if it cannot stand here. -/
def after? (c : Char) (due : Awaiting) : Option Awaiting :=
  if c = due.mark then
    match due with
    | opening => some (closing [c])
    | closing _ => some comma
    | comma => some opening
  else if isClauseMark c then none
  else
    match due with
    | closing clause => some (closing (clause ++ [c]))
    | opening | comma => if isSpace c then some due else none

/-- The clause that the character completes, if it does. -/
def completed (c : Char) : Awaiting → List Text
  | closing clause => if c = '}' then [clause ++ [c]] else []
  | opening | comma => []

/-- The fault of a character that cannot stand here. -/
def refusal (c : Char) (due : Awaiting) : Fault :=
  if isClauseMark c then .mismatch due.mark c else .errant c

theorem isClauseMark_mark (due : Awaiting) : isClauseMark due.mark = true := by
  cases due <;> rfl

/-- Among the marks, only the one that is due can stand here.  Characters that are no marks are a
matter of where they stand: inside a clause or outside. -/
theorem isSome_after?_iff {c : Char} (mark : isClauseMark c = true) (due : Awaiting) :
    (due.after? c).isSome = true ↔ c = due.mark := by
  unfold after?
  split
  · rename_i same
    cases due <;> simp [same]
  · rename_i other
    simp [other]

end Awaiting

theorem isSpace_of_isClauseMark {c : Char} (mark : isClauseMark c = true) : isSpace c = false := by
  simp only [isClauseMark, Bool.or_eq_true, beq_iff_eq] at mark
  rcases mark with (rfl | rfl) | rfl <;> rfl

theorem isClauseMark_of_isSpace {c : Char} (space : isSpace c = true) : isClauseMark c = false := by
  by_contra mark
  rw [Bool.not_eq_false] at mark
  cases (isSpace_of_isClauseMark mark).symm.trans space

/-- A character that cannot stand where it does is refused, and what is behind it is not looked
at. -/
theorem clausesFrom_of_stop {due : Awaiting} {c : Char} (stops : due.after? c = none)
    (rest : Text) :
    clausesFrom due (c :: rest) = .error (due.refusal c) := by
  have other : c ≠ due.mark := by
    rintro rfl
    have goes := (due.isSome_after?_iff due.isClauseMark_mark).mpr rfl
    rw [stops] at goes
    cases goes
  unfold Awaiting.after? at stops
  rw [if_neg other] at stops
  unfold Awaiting.refusal
  split
  · rename_i mark
    cases due <;> rw [clausesFrom, if_neg other, if_pos mark]
  · rename_i plain
    rw [if_neg plain] at stops
    cases due with
    | closing clause => cases stops
    | opening | comma =>
        rw [ite_eq_right_iff] at stops
        rw [clausesFrom, if_neg other, if_neg plain, if_neg fun space => by cases stops space]

/-- A character that can stand where it does is passed, and leaves something due behind it. -/
theorem clausesFrom_of_after? {due next : Awaiting} {c : Char} (goes : due.after? c = some next)
    (rest : Text) :
    clausesFrom due (c :: rest) = (clausesFrom next rest).map (due.completed c ++ ·) := by
  have unchanged (x : Except Fault (List Text)) : x.map ([] ++ ·) = x := by cases x <;> rfl
  unfold Awaiting.after? at goes
  split at goes
  · rename_i mark
    cases due with
    | closing clause =>
        cases goes
        subst mark
        rfl
    | opening | comma =>
        cases goes
        rw [clausesFrom, if_pos mark, Awaiting.completed, unchanged]
  · rename_i other
    rw [Option.ite_none_left_eq_some] at goes
    obtain ⟨plain, goes⟩ := goes
    cases due with
    | closing clause =>
        cases goes
        have inside : c ≠ '}' := other
        rw [clausesFrom, if_neg other, if_neg plain, Awaiting.completed, if_neg inside, unchanged]
    | opening | comma =>
        rw [Option.ite_none_right_eq_some] at goes
        obtain ⟨space, goes⟩ := goes
        cases goes
        rw [clausesFrom, if_neg other, if_neg plain, if_pos space, Awaiting.completed, unchanged]

/-! ### Lists of clauses are cut -/

/-- White space outside the clauses is skipped, so clauses may be set out freely. -/
theorem clausesFrom_blank {due : Awaiting} (outside : due = .opening ∨ due = .comma) {gap : Text}
    (blank : gap.isBlank = true) (rest : Text) :
    clausesFrom due (gap ++ rest) = clausesFrom due rest := by
  induction gap with
  | nil => rfl
  | cons c gap ih =>
      obtain ⟨space, blank⟩ := Bool.and_eq_true_iff.mp blank
      have plain : ¬ isClauseMark c = true := by simp [isClauseMark_of_isSpace space]
      have other : c ≠ due.mark := by
        rintro rfl
        exact plain due.isClauseMark_mark
      rw [List.cons_append, ← ih blank]
      rcases outside with rfl | rfl <;> rw [clausesFrom, if_neg other, if_neg plain, if_pos space]

/-- Inside a clause everything but a mark is taken, white space included. -/
theorem clausesFrom_closing {body : Text} (plain : ∀ c ∈ body, isClauseMark c = false)
    (clause rest : Text) :
    clausesFrom (.closing clause) (body ++ rest) =
      clausesFrom (.closing (clause ++ body)) rest := by
  induction body generalizing clause with
  | nil => rw [List.nil_append, List.append_nil]
  | cons c body ih =>
      have notMark := plain c List.mem_cons_self
      have notClosing : c ≠ '}' := by
        rintro rfl
        cases notMark
      rw [List.cons_append, clausesFrom, Awaiting.mark, if_neg notClosing,
        if_neg (by simp [notMark]), ih fun d mem => plain d (List.mem_cons_of_mem c mem)]
      simp

/-- A complete clause is cut off, and then a comma is due. -/
theorem clausesFrom_clause {clause : Text} (is : IsClause clause) (rest : Text) :
    clausesFrom .opening (clause ++ rest) = (clausesFrom .comma rest).map (clause :: ·) := by
  obtain ⟨body, plain, rfl⟩ := is
  have opened : clausesFrom .opening (('{' :: (body ++ ['}'])) ++ rest) =
      clausesFrom (.closing ['{']) ((body ++ ['}']) ++ rest) := rfl
  rw [opened, List.append_assoc, clausesFrom_closing plain]
  rfl

/-- A list of clauses is cut into them.  The induction is on the list, one clause and its comma at
a time. -/
theorem Listing.clausesFrom_eq {text : Text} {clauses : List Text}
    (listing : Listing text clauses) : clausesFrom .opening text = .ok clauses := by
  induction listing with
  | @last lead clause trail before is behind =>
      have ended : clausesFrom .comma trail = .ok [] := by
        have skipped := clausesFrom_blank (Or.inr rfl) behind []
        rw [List.append_nil] at skipped
        exact skipped
      rw [clausesFrom_blank (Or.inl rfl) before, clausesFrom_clause is, ended]
      rfl
  | @cons lead clause trail rest clauses before is behind _ ih =>
      have next : clausesFrom .comma (',' :: rest) = clausesFrom .opening rest := rfl
      rw [clausesFrom_blank (Or.inl rfl) before, clausesFrom_clause is,
        clausesFrom_blank (Or.inr rfl) behind, next, ih]
      rfl

/-! ### Nothing else is cut -/

/-- What can stand behind a clause: white space, and behind it nothing or more clauses. -/
inductive Followed : Text → List Text → Prop where
  | done {trail : Text} (blank : trail.isBlank = true) : Followed trail []
  | more {trail rest : Text} {clauses : List Text} (blank : trail.isBlank = true)
      (others : Listing rest clauses) : Followed (trail ++ ',' :: rest) clauses

/-- A clause with what may follow it is a list of clauses: nothing follows, or a comma and another
list. -/
theorem Listing.of_followed {lead clause rest : Text} {clauses : List Text}
    (before : lead.isBlank = true) (is : IsClause clause) (followed : Followed rest clauses) :
    Listing (lead ++ (clause ++ rest)) (clause :: clauses) := by
  cases followed with
  | done behind => exact .last before is behind
  | more behind others => exact .cons before is behind others

theorem Listing.space {c : Char} (space : isSpace c = true) {text : Text} {clauses : List Text}
    (listing : Listing text clauses) : Listing (c :: text) clauses := by
  have blank {lead : Text} (before : lead.isBlank = true) : Text.isBlank (c :: lead) = true :=
    Bool.and_eq_true_iff.mpr ⟨space, before⟩
  cases listing with
  | last before is behind => exact .last (blank before) is behind
  | cons before is behind others => exact .cons (blank before) is behind others

theorem Followed.space {c : Char} (space : isSpace c = true) {text : Text} {clauses : List Text}
    (followed : Followed text clauses) : Followed (c :: text) clauses := by
  have blank {trail : Text} (behind : trail.isBlank = true) : Text.isBlank (c :: trail) = true :=
    Bool.and_eq_true_iff.mpr ⟨space, behind⟩
  cases followed with
  | done behind => exact .done (blank behind)
  | more behind others => exact .more (blank behind) others

/-- What the text has to be for its clauses, by what is due in front of it. -/
def Continues : Awaiting → Text → List Text → Prop
  | .opening, text, clauses => Listing text clauses
  | .closing clause, text, clauses =>
      ∃ body rest others, (∀ c ∈ body, isClauseMark c = false) ∧ text = body ++ '}' :: rest ∧
        clauses = (clause ++ (body ++ ['}'])) :: others ∧ Followed rest others
  | .comma, text, clauses => Followed text clauses

/-- A character that can stand where it does goes in front of a text that continues what is due
behind it.  If it completes a clause, this clause comes first. -/
theorem Continues.cons {due next : Awaiting} {c : Char} (goes : due.after? c = some next)
    {text : Text} {clauses : List Text} (continues : Continues next text clauses) :
    Continues due (c :: text) (due.completed c ++ clauses) := by
  unfold Awaiting.after? at goes
  split at goes
  · rename_i mark
    subst mark
    cases due with
    | opening =>
        cases goes
        obtain ⟨body, rest, others, plain, rfl, rfl, followed⟩ := continues
        have listing : Listing ([] ++ (('{' :: (body ++ ['}'])) ++ rest)) _ :=
          .of_followed rfl ⟨body, plain, rfl⟩ followed
        show Listing ('{' :: (body ++ '}' :: rest)) (('{' :: (body ++ ['}'])) :: others)
        simpa using listing
    | closing clause =>
        cases goes
        exact ⟨[], text, clauses, by simp, rfl, rfl, continues⟩
    | comma =>
        cases goes
        show Followed ([] ++ ',' :: text) clauses
        exact .more rfl continues
  · rename_i other
    rw [Option.ite_none_left_eq_some] at goes
    obtain ⟨plain, goes⟩ := goes
    cases due with
    | opening =>
        rw [Option.ite_none_right_eq_some] at goes
        obtain ⟨space, goes⟩ := goes
        cases goes
        exact Listing.space space continues
    | closing clause =>
        cases goes
        obtain ⟨body, rest, others, inside, rfl, rfl, followed⟩ := continues
        have inside' : c ≠ '}' := other
        refine ⟨c :: body, rest, others, ?_, rfl, ?_, followed⟩
        · intro d mem
          rcases List.mem_cons.mp mem with rfl | mem
          · simpa using plain
          · exact inside d mem
        · simp [Awaiting.completed, inside']
    | comma =>
        rw [Option.ite_none_right_eq_some] at goes
        obtain ⟨space, goes⟩ := goes
        cases goes
        exact Followed.space space continues

/-- Nothing else than a list of clauses is cut.  The induction is on the text, and what is due
says which part of a list it has to be. -/
theorem continues_of_clausesFrom {due : Awaiting} {text : Text} {clauses : List Text}
    (accepted : clausesFrom due text = .ok clauses) : Continues due text clauses := by
  induction text generalizing due clauses with
  | nil =>
      cases due with
      | comma =>
          cases accepted
          exact .done rfl
      | opening => cases accepted
      | closing clause => cases accepted
  | cons c text ih =>
      cases step : due.after? c with
      | none =>
          rw [clausesFrom_of_stop step] at accepted
          cases accepted
      | some next =>
          rw [clausesFrom_of_after? step, Except.map_eq_ok_iff] at accepted
          obtain ⟨others, accepted, rfl⟩ := accepted
          exact (ih accepted).cons step

/-- Cutting that begins with a clause accepts the lists of clauses, and no other text. -/
theorem clausesFrom_opening_eq_ok_iff {text : Text} {clauses : List Text} :
    clausesFrom .opening text = .ok clauses ↔ Listing text clauses :=
  ⟨continues_of_clausesFrom, Listing.clausesFrom_eq⟩

/-! ### Runs -/

namespace Awaiting

/-- What is due behind the text; `none` if it is refused before its end. -/
def past? (due : Awaiting) (text : Text) : Option Awaiting :=
  text.foldlM (fun due c => due.after? c) due

theorem past?_cons (due : Awaiting) (c : Char) (text : Text) :
    due.past? (c :: text) = (due.after? c).bind fun next => next.past? text :=
  List.foldlM_cons

theorem past?_concat (due : Awaiting) (text : Text) (c : Char) :
    due.past? (text ++ [c]) = (due.past? text).bind fun next => next.after? c := by
  unfold past?
  rw [List.foldlM_append]
  simp [List.foldlM_cons]

/-- A text that is refused is so at a character behind a beginning that is not.  This is the place
that the fault is about. -/
theorem exists_stop {due : Awaiting} {text : Text} (stops : due.past? text = none) :
    ∃ front c rest next, text = front ++ c :: rest ∧ due.past? front = some next ∧
      next.after? c = none := by
  induction text generalizing due with
  | nil => cases stops
  | cons c text ih =>
      cases step : due.after? c with
      | none => exact ⟨[], c, text, due, rfl, rfl, step⟩
      | some next =>
          rw [past?_cons, step] at stops
          obtain ⟨front, d, rest, last, rfl, goes, stops⟩ := ih stops
          refine ⟨c :: front, d, rest, last, rfl, ?_, stops⟩
          rw [past?_cons, step]
          exact goes

end Awaiting

/-- A text is cut after its beginning as it would be alone, with what is due there.  Only the
clause that was begun is carried over. -/
theorem clausesFrom_of_past? {due next : Awaiting} {front : Text}
    (goes : due.past? front = some next) :
    ∃ done, ∀ rest, clausesFrom due (front ++ rest) = (clausesFrom next rest).map (done ++ ·) := by
  induction front generalizing due with
  | nil =>
      cases goes
      refine ⟨[], fun rest => ?_⟩
      rw [List.nil_append]
      cases clausesFrom next rest <;> rfl
  | cons c front ih =>
      rw [Awaiting.past?_cons, Option.bind_eq_some_iff] at goes
      obtain ⟨first, step, goes⟩ := goes
      obtain ⟨done, cut⟩ := ih goes
      refine ⟨due.completed c ++ done, fun rest => ?_⟩
      rw [List.cons_append, clausesFrom_of_after? step, cut]
      cases clausesFrom next rest <;> simp [Except.map]

/-- Whatever is due, the text can go on to a list of clauses.  So nothing is refused before it has
to be. -/
theorem exists_clausesFrom_eq_ok (due : Awaiting) :
    ∃ rest clauses, clausesFrom due rest = .ok clauses := by
  cases due with
  | opening => exact ⟨['{', '}'], _, rfl⟩
  | closing clause => exact ⟨['}'], _, rfl⟩
  | comma => exact ⟨[], _, rfl⟩

/-- A list of clauses can begin exactly with the texts that are not refused before their end. -/
theorem begins_iff {front : Text} :
    Begins front ↔ ∃ due, Awaiting.opening.past? front = some due := by
  constructor
  · rintro ⟨rest, clauses, listing⟩
    cases goes : Awaiting.opening.past? front with
    | some due => exact ⟨due, rfl⟩
    | none =>
        -- Where reading stops it would stop in every text that goes on from there.
        obtain ⟨before, c, behind, next, rfl, goes, stops⟩ := Awaiting.exists_stop goes
        obtain ⟨done, cut⟩ := clausesFrom_of_past? goes
        have accepted := listing.clausesFrom_eq
        rw [List.append_assoc, cut, List.cons_append, clausesFrom_of_stop stops] at accepted
        cases accepted
  · rintro ⟨due, goes⟩
    obtain ⟨done, cut⟩ := clausesFrom_of_past? goes
    obtain ⟨rest, clauses, accepted⟩ := exists_clausesFrom_eq_ok due
    refine ⟨rest, done ++ clauses, clausesFrom_opening_eq_ok_iff.mp ?_⟩
    rw [cut, accepted]
    rfl

/-- One character more is a beginning still exactly if it can stand where it does. -/
theorem begins_concat_iff {front : Text} {due : Awaiting}
    (goes : Awaiting.opening.past? front = some due) (c : Char) :
    Begins (front ++ [c]) ↔ (due.after? c).isSome = true := by
  rw [begins_iff, Awaiting.past?_concat, goes, Option.isSome_iff_exists]
  rfl

/-- The mark that is due is the only one that can follow.  It is the one that a fault says was
expected. -/
theorem due_mark {front : Text} {due : Awaiting} (goes : Awaiting.opening.past? front = some due) :
    Due front due.mark := by
  refine ⟨due.isClauseMark_mark, ?_⟩
  intro m mark
  rw [begins_concat_iff goes, due.isSome_after?_iff mark]

theorem Due.unique {front : Text} {m m' : Char} (due : Due front m) (due' : Due front m') :
    m = m' :=
  (due'.2 m due.1).mp ((due.2 m due.1).mpr rfl)

/-! ### Refusals -/

/-- A text that could go on to a list of clauses is one, or it ends too early and misses the mark
that is due. -/
theorem clausesFrom_of_begins {text : Text} {due : Awaiting}
    (goes : Awaiting.opening.past? text = some due) :
    (∃ clauses, clausesFrom .opening text = .ok clauses) ∨
      clausesFrom .opening text = .error (.unterminated due.mark) := by
  obtain ⟨done, cut⟩ := clausesFrom_of_past? goes
  have whole := cut []
  rw [List.append_nil] at whole
  rw [whole]
  cases due with
  | comma => exact Or.inl ⟨_, rfl⟩
  | opening | closing _ => exact Or.inr rfl

/-- A character that cannot stand where it does is what the text is refused for, whatever
follows. -/
theorem clausesFrom_of_place {front : Text} {due : Awaiting} {c : Char}
    (goes : Awaiting.opening.past? front = some due) (stops : due.after? c = none) (rest : Text) :
    clausesFrom .opening (front ++ c :: rest) = .error (due.refusal c) := by
  obtain ⟨done, cut⟩ := clausesFrom_of_past? goes
  rw [cut, clausesFrom_of_stop stops]
  rfl

/-- A text that is not a list of clauses is refused as `Refused` says, if it is not blank.  A
blank one is refused for being empty before it is cut. -/
theorem refused_of_clausesFrom {text : Text} {f : Fault} (notBlank : text.isBlank = false)
    (refused : clausesFrom .opening text = .error f) : Refused text f := by
  cases goes : Awaiting.opening.past? text with
  | none =>
      obtain ⟨front, c, rest, due, rfl, goes, stops⟩ := Awaiting.exists_stop goes
      cases refused.symm.trans (clausesFrom_of_place goes stops rest)
      have begins := begins_iff.mpr ⟨due, goes⟩
      have ends : ¬ Begins (front ++ [c]) := by
        rw [begins_concat_iff goes, stops]
        exact Bool.false_ne_true
      unfold Awaiting.refusal
      split
      · rename_i mark
        exact .mismatch rfl begins ends mark (due_mark goes)
      · rename_i plain
        exact .errant rfl begins ends (by simpa using plain)
  | some due =>
      have incomplete : ¬ ∃ clauses, Listing text clauses := by
        rintro ⟨clauses, listing⟩
        cases refused.symm.trans listing.clausesFrom_eq
      rcases clausesFrom_of_begins goes with ⟨clauses, accepted⟩ | missing
      · cases refused.symm.trans accepted
      · cases refused.symm.trans missing
        exact .unterminated (begins_iff.mpr ⟨due, goes⟩) notBlank incomplete (due_mark goes)

theorem exists_stop_of_begins {front : Text} {c : Char} (begins : Begins front)
    (stops : ¬ Begins (front ++ [c])) :
    ∃ due, Awaiting.opening.past? front = some due ∧ due.after? c = none := by
  obtain ⟨due, goes⟩ := begins_iff.mp begins
  rw [begins_concat_iff goes, Option.not_isSome_iff_eq_none] at stops
  exact ⟨due, goes, stops⟩

/-- Conversely, a text that is refused in the sense of `Refused` has that fault.  The two
directions together leave no other fault. -/
theorem Refused.clausesFrom_eq {text : Text} {f : Fault} (refused : Refused text f) :
    clausesFrom .opening text = .error f := by
  cases refused with
  | mismatch place begins stops mark expected =>
      obtain ⟨due, goes, stops⟩ := exists_stop_of_begins begins stops
      rw [place, clausesFrom_of_place goes stops, Awaiting.refusal, if_pos mark,
        expected.unique (due_mark goes)]
  | errant place begins stops plain =>
      obtain ⟨due, goes, stops⟩ := exists_stop_of_begins begins stops
      rw [place, clausesFrom_of_place goes stops, Awaiting.refusal, if_neg (by simp [plain])]
  | unterminated begins _ incomplete expected =>
      obtain ⟨due, goes⟩ := begins_iff.mp begins
      rcases clausesFrom_of_begins goes with ⟨clauses, accepted⟩ | missing
      · exact absurd ⟨clauses, clausesFrom_opening_eq_ok_iff.mp accepted⟩ incomplete
      · rw [missing, expected.unique (due_mark goes)]

theorem begins_of_isBlank {text : Text} (blank : text.isBlank = true) : Begins text := by
  have listing : Listing (text ++ (['{', '}'] ++ [])) [['{', '}']] :=
    .last blank ⟨[], by simp, rfl⟩ rfl
  exact ⟨['{', '}'], [['{', '}']], listing⟩

theorem Refused.notBlank {text : Text} {f : Fault} (refused : Refused text f) :
    text.isBlank = false := by
  -- In blank text white space can always follow.
  have goesOn {front rest : Text} {c : Char} (stops : ¬ Begins (front ++ [c])) :
      (front ++ c :: rest).isBlank = false := by
    by_contra blank
    rw [Bool.not_eq_false, List.append_cons, Text.isBlank, List.all_append,
      Bool.and_eq_true] at blank
    exact stops (begins_of_isBlank blank.1)
  cases refused with
  | mismatch place _ stops _ _ => exact place ▸ goesOn stops
  | errant place _ stops _ => exact place ▸ goesOn stops
  | unterminated _ notBlank _ _ => exact notBlank

theorem Listing.notBlank {text : Text} {clauses : List Text} (listing : Listing text clauses) :
    text.isBlank = false := by
  have brace {lead clause rest : Text} (is : IsClause clause) :
      Text.isBlank (lead ++ (clause ++ rest)) = false := by
    obtain ⟨body, -, rfl⟩ := is
    simp [Text.isBlank, isSpace]
  cases listing with
  | last _ is _ => exact brace is
  | cons _ is _ _ => exact brace is

/-- A list of clauses is accepted as a whole, since it is not blank. -/
theorem Listing.clauses_eq {text : Text} {cs : List Text} (listing : Listing text cs) :
    clauses text = .ok cs := by
  rw [clauses, if_neg (by simp [listing.notBlank])]
  exact listing.clausesFrom_eq

/-- **Cutting accepts lists of clauses, and nothing else.**  A text is cut into clauses exactly if
it is blank, and then into none, or if it consists of these clauses, at least one, with white
space around each of them and commas between them; a clause is text without marks in braces.
Every other text is refused: at the first character with which no such list can go on, for a
mark that stands where only another one can follow, or for a character outside the clauses; or
at its end, if no character is wrong, for the only mark that can follow. -/
theorem clauses_exact (text : Text) :
    (∀ cs, clauses text = .ok cs ↔ (text.isBlank = true ∧ cs = []) ∨ Listing text cs) ∧
      ∀ f, clauses text = .error f ↔ Refused text f := by
  cases blank : text.isBlank with
  | true =>
      have none : clauses text = .ok [] := if_pos blank
      rw [none]
      refine ⟨fun cs => ⟨?_, ?_⟩, fun f => ⟨?_, ?_⟩⟩
      · intro accepted
        cases accepted
        exact Or.inl ⟨rfl, rfl⟩
      · rintro (⟨-, rfl⟩ | listing)
        · rfl
        · cases blank.symm.trans listing.notBlank
      · intro refused
        cases refused
      · intro refused
        cases blank.symm.trans refused.notBlank
  | false =>
      have cut : clauses text = clausesFrom .opening text := if_neg (by simp [blank])
      rw [cut]
      refine ⟨fun cs => ?_, fun f => ⟨refused_of_clausesFrom blank, Refused.clausesFrom_eq⟩⟩
      rw [clausesFrom_opening_eq_ok_iff]
      simp

end Pizza

end Pizzeria
