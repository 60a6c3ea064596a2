import Pizzeria.Proofs.Atomicity
import Pizzeria.Proofs.Numerals

/-!
# Programs one behind the other

Two programs can be run one after the other, or be put together and be run as one.  A
halt in the first one ends both ways alike.  Otherwise the second program finds the same
session and the same settings in both ways; it only prints under higher numbers when it
is part of the longer program, and has no rule of its own in front.

The comparison of the two ways is a simulation: the second program goes through two runs
at once, from states that differ in the counter and in the lines printed so far, and each
statement keeps them as far apart as they are.

## Main Definitions

* `Console.Line.later` — the same line, printed some statements later.
* `State.Later` — the same state, some statements later in a longer program.
* `Program.HaltedAt` — a run has halted at a statement, and how it is reported.

## Main Results

* `Program.runFrom_append` — the statements behind a beginning run from where it ends.
* `State.Later.runFrom` — two runs keep their distance.
* `Program.exists_haltedAt` — where a run halts.
-/

namespace Pizzeria

/-! ### Lines of the console -/

namespace Console

/-- The lines that texts make when the statement with a number prints them. -/
def outputLines (number : Nat) (texts : List Text) : List Line :=
  texts.flatMap fun text => (text.splitOn '\n').map (⟨·, .output, number⟩)

theorem outputLines_cons (number : Nat) (text : Text) (texts : List Text) :
    outputLines number (text :: texts) =
      (text.splitOn '\n').map (⟨·, .output, number⟩) ++ outputLines number texts :=
  List.flatMap_cons

/-- Printing texts adds their lines behind those that are there, under the number of the
statement. -/
theorem printAll_eq (c : Console) (texts : List Text) :
    c.printAll texts = ⟨c.lines ++ outputLines c.statement texts, c.statement⟩ := by
  induction texts generalizing c with
  | nil =>
      show c = ⟨c.lines ++ [], c.statement⟩
      rw [List.append_nil]
  | cons text texts ih =>
      have first : c.printAll (text :: texts) = (c.print text).printAll texts := rfl
      rw [first, ih, outputLines_cons, ← List.append_assoc]
      rfl

theorem kind_of_mem_outputLines {number : Nat} {texts : List Text} {l : Line}
    (mem : l ∈ outputLines number texts) : l.kind = .output := by
  obtain ⟨text, -, mem⟩ := List.mem_flatMap.mp mem
  obtain ⟨part, -, rfl⟩ := List.mem_map.mp mem
  rfl

/-- An error without newlines is one line.  Reports about failed statements are of this sort,
since no failure quotes a text with newlines. -/
theorem error_eq {text : Text} (inLine : '\n' ∉ text) (c : Console) :
    c.error text = ⟨c.lines ++ [⟨text, .error, c.statement⟩], c.statement⟩ := by
  rw [error, push, Text.split, List.splitOn_eq_singleton inLine]
  rfl

namespace Line

/-- How the report about a failed statement begins. -/
def reportHead (number : Nat) : Text := "Statement #" ++ Text.ofNat number

/-- The same line, printed that many statements later.  An error names its statement in
the text as well. -/
def later (n : Nat) (l : Line) : Line where
  text :=
    match l.kind with
    | .output => l.text
    | .error => reportHead (l.statement + n) ++ l.text.drop (reportHead l.statement).length
  kind := l.kind
  statement := l.statement + n

theorem failureLine_eq (number : Nat) (failure : Failure) :
    Program.failureLine number failure =
      reportHead number ++ ((": Error: " : Text) ++ failure.message) := by
  unfold Program.failureLine reportHead
  exact List.append_assoc _ _ _

/-- The report about a statement that is later by some numbers names the later number, in its text
as well as beside it. -/
theorem later_failureLine (n number : Nat) (failure : Failure) :
    later n ⟨Program.failureLine number failure, .error, number⟩ =
      ⟨Program.failureLine (number + n) failure, .error, number + n⟩ := by
  rw [later, failureLine_eq, failureLine_eq, List.drop_left]

end Line

/-- What is printed says nothing about its number, so only the number beside it moves. -/
theorem map_later_outputLines (n number : Nat) (texts : List Text) :
    (outputLines number texts).map (Line.later n) = outputLines (number + n) texts := by
  unfold outputLines
  rw [List.map_flatMap]
  congr 1
  funext text
  rw [List.map_map]
  rfl

end Console

/-- The report about a failed statement is one line, and can be recognised by how it begins. -/
theorem Program.newline_notMem_failureLine (number : Nat) (failure : Failure) :
    '\n' ∉ failureLine number failure := by
  rw [Console.Line.failureLine_eq]
  unfold Console.Line.reportHead
  rw [List.mem_append, List.mem_append, List.mem_append]
  rintro ((mem | mem) | (mem | mem))
  · exact absurd mem (by decide)
  · exact absurd (Integer.isDigit_of_mem_ofNat mem) (by decide)
  · exact absurd mem (by decide)
  · revert mem
    cases failure <;> decide

/-! ### A program behind another one -/

namespace Program

/-- A run does not depend on the statement that the console stands at before it.  It sets the
number before every statement. -/
theorem runFrom_forStatement (program : Program) (s : State) (n : Nat) :
    program.runFrom { s with console := s.console.forStatement n } = program.runFrom s := by
  cases program <;> rfl

/-- The statements behind a beginning run from where it ends, unless it halts.  Then they are not
run at all. -/
theorem runFrom_append (p q : Program) (s : State) :
    (p ++ q).runFrom s =
      match p.runFrom s with
      | (.halted, s') => (.halted, s')
      | (.finished, s') => q.runFrom s' := by
  induction p generalizing s with
  | nil => exact (runFrom_forStatement q s 0).symm
  | cons statement p ih =>
      cases changes : statement.change s.session with
      | error failure =>
          rw [runFrom_of_change_cons_error changes, List.cons_append,
            runFrom_of_change_cons_error changes]
      | ok session =>
          rw [runFrom_of_change_cons changes, List.cons_append, runFrom_of_change_cons changes]
          exact ih _

/-- A program that is finished has counted all its statements, the ones behind leaving
included. -/
theorem counter_of_finished {program : Program} {s s' : State}
    (finished : program.runFrom s = (.finished, s')) :
    s'.counter = s.counter + program.length := by
  induction program generalizing s with
  | nil =>
      cases finished
      rfl
  | cons statement program ih =>
      obtain ⟨session, -, rest⟩ := exists_of_finished_cons finished
      have counted : s'.counter = s.counter + 1 + program.length := ih rest
      rw [counted, List.length_cons]
      omega

/-- Behind a run the console stands at no statement, so that what is printed next is not ascribed
to the last one. -/
theorem statement_runFrom (program : Program) (s : State) :
    (program.runFrom s).2.console.statement = 0 := by
  induction program generalizing s with
  | nil => rfl
  | cons statement program ih =>
      cases changes : statement.change s.session with
      | error failure =>
          rw [runFrom_of_change_cons_error changes]
          rfl
      | ok session =>
          rw [runFrom_of_change_cons changes]
          exact ih _

end Program

/-! ### Two runs of one program -/

open Console

namespace State

/-- The state `t` is `s`, that many statements later in a longer program: what has been
printed since the lines `front` of the one and `front'` of the other is the same but for
the numbers. -/
structure Later (n : Nat) (front front' : List Line) (s t : State) : Prop where
  session : t.session = s.session
  settings : t.settings = s.settings
  running : t.running = s.running
  counter : t.counter = s.counter + n
  lines : ∃ printed, s.console.lines = front ++ printed ∧
    t.console.lines = front' ++ printed.map (Line.later n)

namespace Later

variable {n : Nat} {front front' : List Line} {s t : State}

/-- A statement that succeeds keeps the distance: both runs print the same lines, under numbers
that differ by it. -/
theorem behind (later : Later n front front' s t) (statement : Statement)
    (session : Option Session) :
    Later n front front' { statement.behind s.numbered session with counter := s.counter + 1 }
      { statement.behind t.numbered session with counter := t.counter + 1 } := by
  obtain ⟨printed, left, right⟩ := later.lines
  have same : statement.printed t.settings t.session = statement.printed s.settings s.session := by
    rw [later.settings, later.session]
  refine ⟨rfl, later.settings, ?_, ?_, ?_⟩
  · show (statement != .quit && t.running) = (statement != .quit && s.running)
    rw [later.running]
  · show t.counter + 1 = s.counter + 1 + n
    rw [later.counter]
    omega
  · refine ⟨printed ++ outputLines s.counter (statement.printed s.settings s.session), ?_, ?_⟩
    · show (s.numbered.console.printAll (statement.printed s.settings s.session)).lines = _
      rw [printAll_eq, ← List.append_assoc, ← left]
      rfl
    · show (t.numbered.console.printAll (statement.printed t.settings t.session)).lines = _
      rw [printAll_eq, same, List.map_append, map_later_outputLines, ← List.append_assoc, ← right,
        ← later.counter]
      rfl

/-- A statement that fails is reported at the same distance, and the two reports differ only in
the number. -/
theorem error (later : Later n front front' s t) (failure : Failure) :
    Later n front front'
      { s with console :=
          (s.numbered.console.error (Program.failureLine s.counter failure)).forStatement 0 }
      { t with console :=
          (t.numbered.console.error (Program.failureLine t.counter failure)).forStatement 0 } := by
  obtain ⟨printed, left, right⟩ := later.lines
  refine ⟨later.session, later.settings, later.running, later.counter, ?_⟩
  refine ⟨printed ++ [⟨Program.failureLine s.counter failure, .error, s.counter⟩], ?_, ?_⟩
  · rw [error_eq (Program.newline_notMem_failureLine _ _), ← List.append_assoc, ← left]
    rfl
  · rw [error_eq (Program.newline_notMem_failureLine _ _), List.map_append, List.map_singleton,
      Line.later_failureLine, ← later.counter, ← List.append_assoc, ← right]
    rfl

/-- Two runs of a program end alike and keep their distance.  The induction is on the statements;
the session decides, and it is the same in both. -/
theorem runFrom (later : Later n front front' s t) (program : Program) :
    (program.runFrom t).1 = (program.runFrom s).1 ∧
      Later n front front' (program.runFrom s).2 (program.runFrom t).2 := by
  induction program generalizing s t with
  | nil => exact ⟨rfl, later.session, later.settings, later.running, later.counter, later.lines⟩
  | cons statement program ih =>
      cases changes : statement.change s.session with
      | error failure =>
          have fails : statement.change t.session = .error failure := by
            rw [later.session, changes]
          rw [Program.runFrom_of_change_cons_error changes,
            Program.runFrom_of_change_cons_error fails]
          exact ⟨rfl, later.error failure⟩
      | ok session =>
          have succeeds : statement.change t.session = .ok session := by
            rw [later.session, changes]
          rw [Program.runFrom_of_change_cons changes, Program.runFrom_of_change_cons succeeds]
          exact ih (later.behind statement session)

/-- Where the consoles stand at the same statement, the distance says everything: the lines of one
run are those of the other, moved. -/
theorem exists_eq (later : Later n front front' s t)
    (console : t.console.statement = s.console.statement) :
    ∃ printed, s.console.lines = front ++ printed ∧
      t = { s with
        counter := n + s.counter
        console := ⟨front' ++ printed.map (Line.later n), s.console.statement⟩ } := by
  obtain ⟨printed, left, right⟩ := later.lines
  refine ⟨printed, left, ?_⟩
  rcases t with ⟨session, ⟨lines, number⟩, settings, counter, running⟩
  obtain ⟨rfl, rfl, rfl, rfl, -⟩ := later
  rw [Nat.add_comm n, ← right, ← console]

end Later

end State

/-! ### Where a run halts -/

namespace Program

/-- A program that is finished has only printed.  No line of it is an error. -/
theorem lines_of_finished {program : Program} {s s' : State}
    (finished : program.runFrom s = (.finished, s')) :
    ∃ printed, (∀ l ∈ printed, l.kind = .output) ∧
      s'.console.lines = s.console.lines ++ printed := by
  induction program generalizing s with
  | nil =>
      cases finished
      exact ⟨[], by simp, (List.append_nil _).symm⟩
  | cons statement program ih =>
      obtain ⟨session, -, rest⟩ := exists_of_finished_cons finished
      obtain ⟨printed, output, lines⟩ := ih rest
      refine ⟨outputLines s.counter (statement.printed s.settings s.session) ++ printed, ?_, ?_⟩
      · intro l mem
        rcases List.mem_append.mp mem with mem | mem
        · exact kind_of_mem_outputLines mem
        · exact output l mem
      · rw [lines, ← List.append_assoc]
        congr 1
        show (s.numbered.console.printAll (statement.printed s.settings s.session)).lines = _
        rw [printAll_eq]
        rfl

/-- A run halts at the first statement that fails in the session that the statements
before it have left. -/
theorem exists_of_halted {program : Program} {s s' : State}
    (halted : program.runFrom s = (.halted, s')) :
    ∃ (before : Program) (statement : Statement) (behind : Program) (failure : Failure)
      (s₁ : State), program = before ++ statement :: behind ∧
      before.runFrom s = (.finished, s₁) ∧ statement.change s₁.session = .error failure ∧
      s' = { s₁ with
        console :=
          (s₁.numbered.console.error (failureLine s₁.counter failure)).forStatement 0 } := by
  induction program generalizing s with
  | nil => cases halted
  | cons statement program ih =>
      cases changes : statement.change s.session with
      | error failure =>
          rw [runFrom_of_change_cons_error changes] at halted
          cases halted
          exact ⟨[], statement, program, failure, _, rfl, rfl, changes, rfl⟩
      | ok session =>
          rw [runFrom_of_change_cons changes] at halted
          obtain ⟨before, failing, behind, failure, s₁, rfl, finished, fails, rest⟩ := ih halted
          refine ⟨statement :: before, failing, behind, failure, s₁, rfl, ?_, fails, rest⟩
          rw [runFrom_of_change_cons changes]
          exact finished

/-- The run of a program from `s` has halted in `s'` at a statement: those before it
succeed, one after the other, and it is the first that fails. -/
structure HaltedAt (program : Program) (s s' : State) (before : Program) (statement : Statement)
    (failure : Failure) : Prop where
  first : ∃ behind, program = before ++ statement :: behind
  /-- The session is the one that the statements before it have left. -/
  fails : ∃ s₀, before.perform s = .ok () s₀ ∧ statement.effect s₀ = .error failure s₀ ∧
    s'.session = s₀.session
  counter : s'.counter = before.length + 1
  /-- Behind the rule and what the statements before it have printed stands one error. -/
  report : ∃ printed, (∀ l ∈ printed, l.kind = .output) ∧
    s'.console.lines = (opening s).console.lines ++ printed ++
      [⟨failureLine (before.length + 1) failure, .error, before.length + 1⟩]

theorem exists_haltedAt {program : Program} {s s' : State}
    (halted : program.run s = (.halted, s')) :
    ∃ before statement failure, HaltedAt program s s' before statement failure := by
  obtain ⟨before, statement, behind, failure, s₁, split, finished, fails, rfl⟩ :=
    exists_of_halted halted
  have count : s₁.counter = before.length + 1 := by
    rw [counter_of_finished finished, Nat.add_comm]
  have made : before.change s.session = .ok s₁.session := (change_of_finished finished).1
  obtain ⟨s₀, performed, session⟩ := exists_perform_of_change made
  obtain ⟨printed, output, lines⟩ := lines_of_finished finished
  refine ⟨before, statement, failure, ⟨behind, split⟩, ⟨s₀, performed, ?_, session.symm⟩, count,
    printed, output, ?_⟩
  · apply Statement.effect_of_change_error
    rw [session, fails]
  · have lines' : s₁.console.lines = (opening s).console.lines ++ printed := lines
    rw [error_eq (newline_notMem_failureLine _ _), ← count, ← lines']
    rfl

/-! ### Sequencing -/

/-- Behind a program that is finished, all its statements have been counted, and there is no
rule in front of the next. -/
theorem later_of_finished {p : Program} {s s₁ : State} (finished : p.run s = (.finished, s₁)) :
    State.Later p.length (opening s₁).console.lines s₁.console.lines (opening s₁) s₁ := by
  refine ⟨rfl, rfl, rfl, counter_of_finished (s := opening s) finished, [], ?_, ?_⟩
  · rw [List.append_nil]
  · rw [List.map_nil, List.append_nil]

/-- **Execution is sequential.**  If a program halts, then with anything behind it, it halts
in the same state; counter and error both name the first statement that fails, and the
session is the one left by those before it.  If it is finished, a program behind it ends as
it ends when run from the state that the first one left, with the numbers of its
statements raised by the length of the first and without the rule in front of it. -/
theorem run_append (p q : Program) (s s₁ : State) :
    (p.run s = (.halted, s₁) →
        (p ++ q).run s = (.halted, s₁) ∧
          ∃ before statement failure, HaltedAt p s s₁ before statement failure) ∧
      (p.run s = (.finished, s₁) →
        ∃ printed, (q.run s₁).2.console.lines = (opening s₁).console.lines ++ printed ∧
          (p ++ q).run s = ((q.run s₁).1,
            { (q.run s₁).2 with
              counter := p.length + (q.run s₁).2.counter
              console := ⟨s₁.console.lines ++ printed.map (Line.later p.length), 0⟩ })) := by
  have whole : (p ++ q).run s = _ := runFrom_append p q (opening s)
  refine ⟨?_, ?_⟩
  · intro halted
    rw [show p.runFrom (opening s) = (.halted, s₁) from halted] at whole
    exact ⟨whole, exists_haltedAt halted⟩
  · intro finished
    rw [show p.runFrom (opening s) = (.finished, s₁) from finished] at whole
    obtain ⟨status, later⟩ := (later_of_finished finished).runFrom q
    obtain ⟨printed, lines, state⟩ :=
      later.exists_eq (by rw [statement_runFrom, statement_runFrom])
    rw [statement_runFrom] at state
    exact ⟨printed, lines, whole.trans (Prod.ext status state)⟩

/-- A program that ends with leaving, and one behind it that closes the session twice. -/
theorem run_append_past_quit :
    ∃ (s₁ s₂ : State) (printed : List Line),
      run [.startSession "" 30, .quit] (State.fresh {}) = (.finished, s₁) ∧ s₁.running = false ∧
      run [.endSession, .endSession] s₁ = (.halted, s₂) ∧ s₂.counter = 2 ∧
      s₂.console.lines = (opening s₁).console.lines ++ printed ∧
      run [.startSession "" 30, .quit, .endSession, .endSession] (State.fresh {}) =
        (.halted, { s₂ with
          counter := 2 + s₂.counter
          console := ⟨s₁.console.lines ++ printed.map (Line.later 2), 0⟩ }) ∧
      run [.endSession, .endSession, .quit] s₁ = (.halted, s₂) ∧
      ∃ before statement failure,
        HaltedAt [.endSession, .endSession] s₁ s₂ before statement failure := by
  obtain ⟨printed, lines, whole⟩ :=
    (run_append [.startSession "" 30, .quit] [.endSession, .endSession] (State.fresh {}) _).2 rfl
  obtain ⟨longer, halted⟩ := (run_append [.endSession, .endSession] [.quit]
    (run [.startSession "" 30, .quit] (State.fresh {})).2 _).1 rfl
  exact ⟨_, _, printed, rfl, rfl, rfl, rfl, lines, whole, longer, halted⟩

end Program

end Pizzeria
