import Pizzeria.Execution
import Pizzeria.Grammar.Standard
import Pizzeria.Proofs.Outcome

/-!
# What programs do to the session

A statement acts on the session that is open, prints, or asks to leave.  What it makes
of the session, and what it prints, depends on the session and the settings alone, and a
statement that fails leaves the whole state as it was.  So the session behind a program
can be computed from the session in front of it, and what every statement of a program
keeps is kept by the program, halted or not.

## Main Definitions

* `Statement.change`, `Statement.printed` — what a statement makes of the open session,
  and the texts that it prints.
* `Statement.transition` — what comes of a statement in a state.
* `Program.change` — what the statements of a program make of the open session, one after
  the other.
* `Statement.Keeps` — a statement leads from sessions of a kind to sessions of the kind.
* `State.fresh`, `State.afterRuns` — a new state, and the state behind some runs.

## Main Results

* `Statement.effect_eq` — a statement has the effect that `transition` says.
* `Program.change_of_finished` — what a program that is finished has done.
* `State.run_of_change` — a text whose statements all succeed is run to its end, and
  leaves the session that they make.
* `State.session_afterRuns` — what every statement that can be read keeps, is kept by all
  runs.
-/

namespace Pizzeria

/-! ### Statements -/

/-- The session with the pizza of an order altered. -/
def Session.alter (s : Session) (order : Specifier) (alteration : Alteration) :
    Except Failure Session :=
  match s.position? order with
  | none => .error .noSuchPizza
  | some i =>
      match s.orders[i]? with
      | none => .error .noSuchPizza
      | some o =>
          (o.pizza.alter alteration).map fun pizza => s.modify i ({ · with pizza := pizza })

namespace Statement

/-- What a statement makes of an open session. -/
def changeOpen (s : Session) : Statement → Except Failure (Option Session)
  | startSession _ _ => .error .sessionAlreadyActive
  | nameSession name => .ok (some (s.rename name))
  | endSession => .ok none
  | saveSession _ | loadSession _ | quit => .ok (some s)
  | addPizza pizza name => .ok (some (s.add (.place pizza name)))
  | removePizza order =>
      (s.remove? order).elim (.error .noSuchPizza) fun removed => .ok (some removed.2)
  | viewPizza none _ => .ok (some s)
  | viewPizza (some order) _ => (s.get? order).elim (.error .noSuchPizza) fun _ => .ok (some s)
  | alterPizza order alteration => (s.alter order alteration).map some
  | votePizza order votes =>
      (s.vote? order votes).elim (.error .noSuchPizza) fun voted => .ok (some voted)
  | selectTop count =>
      if count.toInt < 0 then .error .negativeSelection else .ok (some s)
  | resetVotes => .ok (some s.resetVotes)
  | resetSession => .ok (some s.reset)

/-- What a statement does where no session is open. -/
def changeNone : Statement → Except Failure (Option Session)
  | startSession name reserved => .ok (some (.start name reserved))
  | nameSession _ | saveSession _ | loadSession _ | quit => .ok none
  | endSession | addPizza _ _ | removePizza _ | viewPizza _ _ | alterPizza _ _ | votePizza _ _
  | selectTop _ | resetVotes | resetSession => .error .noSession

/-- What a statement makes of the open session, if there is one. -/
def change (statement : Statement) : Option Session → Except Failure (Option Session)
  | none => statement.changeNone
  | some s => statement.changeOpen s

/-- Texts, and a rule below them. -/
def ruled (settings : Settings) (texts : List Text) : List Text :=
  texts ++ [horizontalRule settings.ruleChar]

/-- The texts that a statement prints, unless it fails. -/
def printed (settings : Settings) (session : Option Session) : Statement → List Text
  | saveSession _ => ruled settings ["Session saving has not been implemented yet."]
  | loadSession _ => ruled settings ["Session loading has not been implemented yet."]
  | viewPizza none details => session.elim [] fun s => ruled settings (s.report details settings)
  | viewPizza (some order) details =>
      session.elim [] fun s => (s.position? order).elim [] fun i => (s.orders[i]?).elim [] fun o =>
        ruled settings (o.report (some (i + 1)) details settings)
  | selectTop count =>
      session.elim [] fun s => ruled settings (s.topReport count.toInt.toNat settings)
  | startSession _ _ | nameSession _ | endSession | addPizza _ _ | removePizza _
  | alterPizza _ _ | votePizza _ _ | resetVotes | resetSession | quit => []

/-- The state behind a statement that leaves the given session. -/
def behind (statement : Statement) (s : State) (session : Option Session) : State :=
  { s with
    session := session
    console := s.console.printAll (statement.printed s.settings s.session)
    running := statement != .quit && s.running }

/-- What comes of a statement: the session changes and texts are printed, or the
statement fails and nothing changes. -/
def transition (statement : Statement) (s : State) : EStateM.Result Failure State Unit :=
  match statement.change s.session with
  | .ok session => .ok () (statement.behind s session)
  | .error failure => .error failure s

theorem session_bind {s : State} {opened : Session} (active : s.session = some opened)
    {α : Type} (next : Session → Action α) : (Action.session >>= next) s = next opened s := by
  rcases s with ⟨session, console, settings, counter, running⟩
  cases active
  rfl

theorem position_bind {opened : Session} {order : Specifier} {i : Nat}
    (found : opened.position? order = some i) {α : Type} (next : Nat → Action α) (s : State) :
    (Action.position opened order >>= next) s = next i s := by
  rw [Action.position, found]
  rfl

/-- An order that is not found stops the action, and the state is as it was. -/
theorem position_bind_none {opened : Session} {order : Specifier}
    (missing : opened.position? order = none) {α : Type} (next : Nat → Action α) (s : State) :
    (Action.position opened order >>= next) s = .error .noSuchPizza s := by
  rw [Action.position, missing]
  rfl

/-- Presenting texts prints them between rules and changes nothing else. -/
theorem present_eq (texts : List Text) (s : State) :
    Action.present texts s =
      .ok () { s with console := s.console.printAll (ruled s.settings texts) } := by
  rw [ruled, Console.printAll, List.foldl_append]
  rfl

/-- Without a session, the effect of a statement is its transition.  Most statements fail there,
before they have done anything. -/
theorem effect_of_closed (statement : Statement) {s : State} (closed : s.session = none) :
    statement.effect s = statement.transition s := by
  rcases s with ⟨session, console, settings, counter, running⟩
  cases closed
  cases statement with
  | viewPizza order _ => cases order <;> rfl
  | _ => rfl

/-- With a session, the effect of a statement is its transition too: a change of the session, and
what is printed about it.  The cases are those of the statement. -/
theorem effect_of_open (statement : Statement) {s : State} {opened : Session}
    (active : s.session = some opened) : statement.effect s = statement.transition s := by
  rcases s with ⟨session, console, settings, counter, running⟩
  cases active
  cases statement with
  | removePizza order =>
      rw [effect, session_bind rfl, transition, change, changeOpen]
      cases opened.remove? order <;> rfl
  | viewPizza order details =>
      cases order with
      | none => exact present_eq _ _
      | some order =>
          rw [effect, session_bind rfl, transition, change, changeOpen, Session.get?]
          cases found : opened.position? order with
          | none => exact position_bind_none found _ _
          | some i =>
              rw [position_bind found, Option.bind_some]
              cases there : opened.orders[i]? with
              | none => rfl
              | some o =>
                  have texts : printed settings (some opened) (.viewPizza (some order) details) =
                      ruled settings (o.report (some (i + 1)) details settings) := by
                    simp only [printed, Option.elim_some, found, there]
                  dsimp only [Option.elim_some, behind]
                  rw [texts]
                  exact present_eq _ _
  | alterPizza order alteration =>
      rw [effect, session_bind rfl, transition, change, changeOpen, Session.alter]
      cases found : opened.position? order with
      | none => exact position_bind_none found _ _
      | some i =>
          rw [position_bind found]
          dsimp only
          cases opened.orders[i]? with
          | none => rfl
          | some o =>
              dsimp only
              cases o.pizza.alter alteration <;> rfl
  | votePizza order votes =>
      rw [effect, session_bind rfl, transition, change, changeOpen]
      cases opened.vote? order votes <;> rfl
  | selectTop count =>
      rw [effect, session_bind rfl, transition, change, changeOpen]
      by_cases negative : count.toInt < 0
      · rw [if_pos negative, if_pos negative]
        rfl
      · rw [if_neg negative, if_neg negative]
        exact present_eq _ _
  | saveSession _ | loadSession _ => exact present_eq _ _
  | _ => rfl

/-- A statement does what `change` and `printed` say, and a statement that fails does
nothing. -/
theorem effect_eq (statement : Statement) (s : State) :
    statement.effect s = statement.transition s := by
  cases session : s.session with
  | none => exact statement.effect_of_closed session
  | some opened => exact statement.effect_of_open session

/-- A statement whose change succeeds has no other effect than this change and its report.  What
is printed never decides over what is done. -/
theorem effect_of_change {statement : Statement} {s : State} {session : Option Session}
    (changes : statement.change s.session = .ok session) :
    statement.effect s = .ok () (statement.behind s session) := by
  rw [effect_eq, transition, changes]

/-- A statement whose change fails leaves the state as it is, so a failure has no effect to be
undone. -/
theorem effect_of_change_error {statement : Statement} {s : State} {failure : Failure}
    (fails : statement.change s.session = .error failure) :
    statement.effect s = .error failure s := by
  rw [effect_eq, transition, fails]

/-- The statement leads from a session that `P` holds of to another one, unless it
fails. -/
def Keeps (P : Option Session → Prop) (statement : Statement) : Prop :=
  ∀ ⦃session next⦄, P session → statement.change session = .ok next → P next

end Statement

/-! ### Programs -/

/-- The state in which the statement with the number that it is at runs. -/
def State.numbered (s : State) : State := { s with console := s.console.forStatement s.counter }

namespace Program

open Statement

/-- The state with which a run begins: a rule is printed, and the first statement comes
next. -/
def opening (s : State) : State :=
  { s with console := s.console.print (horizontalRule s.settings.ruleChar), counter := 1 }

/-- What the statements of a program make of the open session, one after the other. -/
def change (program : Program) (session : Option Session) : Except Failure (Option Session) :=
  program.foldlM (fun session statement => statement.change session) session

/-- A statement that succeeds hands its state on to the rest of the program, which goes on with
the next number. -/
theorem runFrom_of_change_cons {statement : Statement} {s : State} {session : Option Session}
    (changes : statement.change s.session = .ok session) (rest : Program) :
    runFrom (statement :: rest) s =
      runFrom rest { statement.behind s.numbered session with counter := s.counter + 1 } := by
  have succeeds : statement.effect s.numbered = .ok () (statement.behind s.numbered session) :=
    effect_of_change changes
  rw [runFrom, ← State.numbered, succeeds]
  rfl

/-- A statement that fails ends the run with a line about it, and the rest is never looked at. -/
theorem runFrom_of_change_cons_error {statement : Statement} {s : State} {failure : Failure}
    (fails : statement.change s.session = .error failure) (rest : Program) :
    runFrom (statement :: rest) s =
      (.halted, { s with
        console :=
          (s.numbered.console.error (failureLine s.counter failure)).forStatement 0 }) := by
  have failed : statement.effect s.numbered = .error failure s.numbered :=
    effect_of_change_error fails
  rw [runFrom, ← State.numbered, failed]
  rfl

/-- A program is finished if no statement fails, and leaves the session that its
statements make. -/
theorem runFrom_of_change {program : Program} {s : State} {session : Option Session}
    (changes : program.change s.session = .ok session) :
    ∃ s', program.runFrom s = (.finished, s') ∧ s'.session = session := by
  induction program generalizing s with
  | nil =>
      cases changes
      exact ⟨_, rfl, rfl⟩
  | cons statement program ih =>
      obtain ⟨next, first, others⟩ := Except.bind_eq_ok_iff.mp changes
      rw [runFrom_of_change_cons first]
      exact ih others

/-- The first statement of a program that is finished has succeeded, and the rest is finished from
where it has led. -/
theorem exists_of_finished_cons {statement : Statement} {rest : Program} {s s' : State}
    (finished : runFrom (statement :: rest) s = (.finished, s')) :
    ∃ session, statement.change s.session = .ok session ∧
      runFrom rest { statement.behind s.numbered session with counter := s.counter + 1 } =
        (.finished, s') := by
  cases changes : statement.change s.session with
  | error failure =>
      rw [runFrom_of_change_cons_error changes] at finished
      cases finished
  | ok session =>
      rw [runFrom_of_change_cons changes] at finished
      exact ⟨session, rfl, finished⟩

/-- A program that is finished has left the session that its statements make, and the
user goes on unless a statement asked to leave. -/
theorem change_of_finished {program : Program} {s s' : State}
    (finished : program.runFrom s = (.finished, s')) :
    program.change s.session = .ok s'.session ∧
      s'.running = (program.all (· != .quit) && s.running) := by
  induction program generalizing s with
  | nil =>
      cases finished
      exact ⟨rfl, rfl⟩
  | cons statement program ih =>
      obtain ⟨session, changes, rest⟩ := exists_of_finished_cons finished
      obtain ⟨others, running⟩ := ih rest
      refine ⟨?_, ?_⟩
      · exact Except.bind_eq_ok_iff.mpr ⟨session, changes, others⟩
      · rw [running, List.all_cons, Bool.and_comm (statement != .quit), Bool.and_assoc]
        rfl

/-- What every statement of a program keeps of the session, the program keeps, whether
it is finished or halted. -/
theorem session_runFrom {P : Option Session → Prop} {program : Program}
    (keeps : ∀ statement ∈ program, statement.Keeps P) {s : State} (before : P s.session) :
    P (program.runFrom s).2.session := by
  induction program generalizing s with
  | nil => exact before
  | cons statement program ih =>
      cases changes : statement.change s.session with
      | ok session =>
          rw [runFrom_of_change_cons changes]
          apply ih
          · intro later mem
            exact keeps later (List.mem_cons_of_mem statement mem)
          · exact keeps statement List.mem_cons_self before changes
      -- A statement that fails has done nothing, and nothing runs behind it.
      | error failure =>
          rw [runFrom_of_change_cons_error changes]
          exact before

end Program

/-! ### Runs -/

namespace State

/-- A state in which nothing has happened yet. -/
def fresh (settings : Settings) : State := { settings }

/-- The state behind a run of a source text; a text that is refused changes nothing. -/
def afterRun (s : State) (g : Grammar) (source : Text) : State :=
  match s.run g source with
  | .ok (_, s') => s'
  | .error _ => s

/-- The state behind runs of source texts, one after the other. -/
def afterRuns (s : State) (runs : List (Grammar.Version × Text)) : State :=
  runs.foldl (fun s run => s.afterRun run.1.grammar run.2) s

/-- Running a text that is read as a program is running the program, if it comes to its end. -/
theorem run_of_finished {g : Grammar} {source : Text} {program : Program}
    (read : Program.ofSource g source = .ok program) {s s' : State}
    (finished : program.run s = (.finished, s')) : s.run g source = .ok (.finished, s') := by
  simp only [run, read, finished, bind, Except.bind, pure, Except.pure]

/-- A program that halts adds one line to what it has printed, and nothing about the session
changes by that. -/
theorem run_of_halted {g : Grammar} {source : Text} {program : Program}
    (read : Program.ofSource g source = .ok program) {s s' : State}
    (halted : program.run s = (.halted, s')) :
    s.run g source = .ok (.halted, { s' with console := s'.console.error haltLine }) := by
  simp only [run, read, halted, bind, Except.bind, pure, Except.pure]

/-- A text whose statements all succeed is run to its end, and leaves the session that
they make. -/
theorem run_of_change {g : Grammar} {source : Text} {program : Program}
    (read : Program.ofSource g source = .ok program) {s : State} {session : Option Session}
    (changes : program.change s.session = .ok session) :
    ∃ s', s.run g source = .ok (.finished, s') ∧ s'.session = session := by
  obtain ⟨s', finished, leaves⟩ := Program.runFrom_of_change (s := Program.opening s) changes
  exact ⟨s', run_of_finished read finished, leaves⟩

/-- A text that is refused is not run in part.  The state is the one before. -/
theorem afterRun_of_error {g : Grammar} {source : Text} {d : Diagnostic}
    (refused : Program.ofSource g source = .error d) (s : State) : s.afterRun g source = s := by
  rw [afterRun, run, refused]
  rfl

/-- The line that a halted run adds is no matter of the session.  So a run does to the session
what its statements do, up to the one that failed. -/
theorem session_afterRun {g : Grammar} {source : Text} {program : Program}
    (read : Program.ofSource g source = .ok program) (s : State) :
    (s.afterRun g source).session = (program.run s).2.session := by
  rcases outcome : program.run s with ⟨status, s'⟩
  cases status with
  | finished => rw [afterRun, run_of_finished read outcome]
  | halted => rw [afterRun, run_of_halted read outcome]

/-- What every statement that can be read keeps of the session, all runs keep.  Invariants are
shown for one statement and hold for everything that was ever run. -/
theorem session_afterRuns {P : Option Session → Prop}
    (keeps : ∀ (v : Grammar.Version) source program,
      Program.ofSource v.grammar source = .ok program → ∀ statement ∈ program, statement.Keeps P)
    (runs : List (Grammar.Version × Text)) {s : State} (before : P s.session) :
    P (s.afterRuns runs).session := by
  induction runs generalizing s with
  | nil => exact before
  | cons run runs ih =>
      obtain ⟨v, source⟩ := run
      refine ih (s := s.afterRun v.grammar source) ?_
      cases read : Program.ofSource v.grammar source with
      | error d => rwa [afterRun_of_error read]
      | ok program =>
          rw [session_afterRun read]
          exact Program.session_runFrom (keeps v source program read) before

end State

end Pizzeria
