import Pizzeria.Proofs.Transition

/-!
# Statements that fail do nothing

A statement can be refused for many reasons: no session is open or one already is, the
order that it refers to is not there, an arrangement is on the pizza already, a count is
negative.  Whatever the reason, it is found before anything is changed or printed.  So
where statements are tried one after the other, going on after each failure, those that
failed might as well not have been there.

## Main Definitions

* `Program.perform` — the statements of a program one after the other, up to the first
  failure, without the numbers and reports of a run.
* `Program.attempt` — the state behind statements that are all tried.
* `Program.succeeding` — those of them that succeed.

## Main Results

* `Statement.eq_of_effect_error` — a statement that fails leaves the state as it was.
* `Program.perform_succeeding` — the statements that succeed lead to the same state alone.
-/

namespace Pizzeria

/-- A statement that fails leaves the state as it was, the console included.  What it might have
printed is not printed. -/
theorem Statement.eq_of_effect_error {statement : Statement} {s s' : State} {failure : Failure}
    (failed : statement.effect s = .error failure s') : s' = s := by
  cases changes : statement.change s.session with
  | ok session =>
      rw [effect_of_change changes] at failed
      cases failed
  | error reason =>
      rw [effect_of_change_error changes] at failed
      cases failed
      rfl

namespace Program

/-! ### Up to the first failure -/

/-- The statements of a program one after the other, up to the first failure. -/
def perform (program : Program) : Action Unit := program.forM Statement.effect

theorem perform_nil (s : State) : perform [] s = .ok () s := rfl

theorem perform_cons {statement : Statement} {s s' : State}
    (succeeds : statement.effect s = .ok () s') (rest : Program) :
    perform (statement :: rest) s = perform rest s' := by
  show (statement.effect >>= fun _ => perform rest) s = perform rest s'
  simp only [bind, EStateM.bind, succeeds]

/-- Statements that all succeed leave the session that they make.  What they print is no matter of
the session. -/
theorem exists_perform_of_change {program : Program} {s : State} {session : Option Session}
    (changes : program.change s.session = .ok session) :
    ∃ s', program.perform s = .ok () s' ∧ s'.session = session := by
  induction program generalizing s with
  | nil =>
      cases changes
      exact ⟨s, perform_nil s, rfl⟩
  | cons statement rest ih =>
      obtain ⟨next, first, others⟩ := Except.bind_eq_ok_iff.mp changes
      rw [perform_cons (Statement.effect_of_change first)]
      exact ih others

/-! ### Going on after failures -/

/-- The state behind statements that are tried one after the other, whether those before
succeeded or not. -/
def attempt : Program → State → State
  | [], s => s
  | statement :: rest, s =>
      match statement.effect s with
      | .ok _ s' => attempt rest s'
      | .error _ s' => attempt rest s'

/-- The statements that succeed where all are tried one after the other. -/
def succeeding : Program → State → Program
  | [], _ => []
  | statement :: rest, s =>
      match statement.effect s with
      | .ok _ s' => statement :: succeeding rest s'
      | .error _ s' => succeeding rest s'

theorem succeeding_sublist (program : Program) (s : State) :
    (program.succeeding s).Sublist program := by
  induction program generalizing s with
  | nil => exact List.Sublist.refl []
  | cons statement rest ih =>
      rw [succeeding]
      cases statement.effect s with
      | ok _ s' => exact (ih s').cons_cons statement
      | error _ s' => exact (ih s').cons statement

/-- The statements that succeed lead to the same state alone, and none of them fails
there. -/
theorem perform_succeeding (program : Program) (s : State) :
    (program.succeeding s).perform s = .ok () (program.attempt s) := by
  induction program generalizing s with
  | nil => exact perform_nil s
  | cons statement rest ih =>
      rw [succeeding, attempt]
      cases outcome : statement.effect s with
      | ok _ s' =>
          show perform (statement :: succeeding rest s') s = _
          rw [perform_cons outcome]
          exact ih s'
      -- The statement is left out, so what follows it has to run from the same state.
      | error failure s' =>
          obtain rfl := Statement.eq_of_effect_error outcome
          exact ih s'

/-- **Failed statements are atomic.**  A statement that fails leaves the whole state as it
was.  Statements that are tried one after the other, going on after failures, lead to the
state that those of them that succeed lead to alone, in the same order. -/
theorem attempt_eq_succeeding :
    (∀ (statement : Statement) (s s' : State) (failure : Failure),
        statement.effect s = .error failure s' → s' = s) ∧
      ∀ (program : Program) (s : State),
        (program.succeeding s).Sublist program ∧
          (program.succeeding s).perform s = .ok () (program.attempt s) := by
  refine ⟨?_, ?_⟩
  · intro statement s s' failure failed
    exact Statement.eq_of_effect_error failed
  · intro program s
    exact ⟨succeeding_sublist program s, perform_succeeding program s⟩

/-- An arrangement that is on the pizza already, and a session that is closed twice. -/
theorem attempt_eq_succeeding_duplicate :
    ∃ (s : State) (program : Program),
      s.session = some ⟨"", [⟨{ Pizza.standard with toppings := [⟨.whole, .ham⟩] }, 0, ""⟩], 30⟩ ∧
      program = [.alterPizza (.index 1) (.addTopping ⟨.whole, .ham⟩), .votePizza (.index 1) 2,
        .endSession, .endSession] ∧
      (∃ s', (Statement.alterPizza (.index 1) (.addTopping ⟨.whole, .ham⟩)).effect s =
          .error .arrangementAlreadyPresent s' ∧ s' = s) ∧
      program.succeeding s = [.votePizza (.index 1) 2, .endSession] ∧
      (program.succeeding s).perform s = .ok () (program.attempt s) := by
  refine ⟨{ session := _ }, _, rfl, rfl, ?_, rfl, (attempt_eq_succeeding.2 _ _).2⟩
  exact ⟨_, rfl, attempt_eq_succeeding.1
    (.alterPizza (.index 1) (.addTopping ⟨.whole, .ham⟩)) _ _ .arrangementAlreadyPresent rfl⟩

end Program

end Pizzeria
