import Mathlib.Data.List.DropRight
import Pizzeria.Proofs.Atomicity

/-!
# The books of a session

Statements are tried one after the other, going on after failures.  Whether a session is
open, and how many orders it has, can then be told from the statements that have succeeded
alone: sessions are opened and closed in turn, and each order that is there has been placed
and not been withdrawn since the session was opened or last reset.

What a statement that succeeds does to the number of orders is said once, by
`Statement.Books`.  The books balance behind a statement if they balance in front of it, and
so they do behind any number of statements.

## Main Definitions

* `Statement.Books` — what a statement that succeeds does to the number of orders.
* `Program.sessionBalance`, `Program.orderBalance` — sessions opened less sessions closed,
  and orders placed less orders withdrawn since the orders were cleared.
* `Program.Balanced` — the books agree with the session.

## Main Results

* `Statement.books_of_change` — statements that succeed do what the books say.
* `Program.Balanced.attempt` — the books agree with the session at all times.
* `Program.running_attempt` — the user goes on unless a statement has asked to leave.
-/

namespace Pizzeria

/-! ### Numbers of orders -/

namespace Session

/-- The number of orders of the open session; `none` where no session is open. -/
def orderCount (session : Option Session) : Option Nat := session.map fun s => s.orders.length

/-- A removal takes the one order that it refers to, and no other. -/
theorem length_orders_remove? {s : Session} {order : Specifier} {removed : Order × Session}
    (found : s.remove? order = some removed) :
    s.orders.length = removed.2.orders.length + 1 := by
  obtain ⟨i, -, found⟩ := Option.bind_eq_some_iff.mp found
  obtain ⟨o, there, found⟩ := Option.bind_eq_some_iff.mp found
  cases found
  obtain ⟨within, -⟩ := List.getElem?_eq_some_iff.mp there
  show s.orders.length = (s.orders.eraseIdx i).length + 1
  rw [List.length_eraseIdx_of_lt within]
  omega

/-- Changing an order neither adds nor removes one, whether or not there is one at the
position. -/
theorem length_orders_modify (s : Session) (i : Nat) (change : Order → Order) :
    (s.modify i change).orders.length = s.orders.length :=
  List.length_modify ..

/-- Altering a pizza is a change of its order, so the number of orders stays. -/
theorem length_orders_alter {s altered : Session} {order : Specifier} {alteration : Alteration}
    (found : s.alter order alteration = .ok altered) :
    altered.orders.length = s.orders.length := by
  rw [alter] at found
  split at found
  · cases found
  · split at found
    · cases found
    · obtain ⟨pizza, -, rfl⟩ := Except.map_eq_ok_iff.mp found
      exact length_orders_modify ..

end Session

/-! ### Statements -/

namespace Statement

/-- The statement asks for a session. -/
def opens : Statement → Bool
  | startSession _ _ => true
  | _ => false

/-- The statement ends the session. -/
def closes : Statement → Bool
  | endSession => true
  | _ => false

/-- The statement places an order. -/
def places : Statement → Bool
  | addPizza _ _ => true
  | _ => false

/-- The statement takes an order back. -/
def withdraws : Statement → Bool
  | removePizza _ => true
  | _ => false

/-- The statement leaves a session without orders. -/
def clears : Statement → Bool
  | startSession _ _ | resetSession => true
  | _ => false

/-- The statement is none of those that are entered in the books. -/
structure Unbooked (statement : Statement) : Prop where
  opens : statement.opens = false
  closes : statement.closes = false
  places : statement.places = false
  withdraws : statement.withdraws = false
  clears : statement.clears = false

/-- What a statement that succeeds does to the number of orders. -/
inductive Books : Statement → Option Nat → Option Nat → Prop where
  | opened (name : Text) (reserved : Nat) : Books (.startSession name reserved) none (some 0)
  | closed (n : Nat) : Books .endSession (some n) none
  | placed (pizza : Pizza) (name : Text) (n : Nat) :
      Books (.addPizza pizza name) (some n) (some (n + 1))
  | withdrawn (order : Specifier) (n : Nat) : Books (.removePizza order) (some (n + 1)) (some n)
  | cleared (n : Nat) : Books .resetSession (some n) (some 0)
  /-- Any other statement leaves the number as it is. -/
  | unbooked {statement : Statement} (unbooked : statement.Unbooked) (n : Option Nat) :
      Books statement n n

theorem books_of_changeNone {statement : Statement} {next : Option Session}
    (changes : statement.changeNone = .ok next) :
    statement.Books none (Session.orderCount next) := by
  cases statement with
  | startSession name reserved =>
      cases changes
      exact .opened name reserved
  | nameSession _ | saveSession _ | loadSession _ | quit =>
      cases changes
      exact .unbooked ⟨rfl, rfl, rfl, rfl, rfl⟩ none
  | _ => cases changes

/-- With a session, each statement does to the number of orders what its entry in the books says.
The cases are those of the statement. -/
theorem books_of_changeOpen {statement : Statement} {s : Session} {next : Option Session}
    (changes : statement.changeOpen s = .ok next) :
    statement.Books (some s.orders.length) (Session.orderCount next) := by
  -- Where another session is left with as many orders, nothing is entered.
  have same {statement : Statement} (unbooked : statement.Unbooked) {s' : Session}
      (length : s'.orders.length = s.orders.length) :
      statement.Books (some s.orders.length) (Session.orderCount (some s')) := by
    have unchanged : Session.orderCount (some s') = some s.orders.length := congrArg some length
    rw [unchanged]
    exact .unbooked unbooked _
  cases statement with
  | startSession _ _ => cases changes
  | endSession =>
      cases changes
      exact .closed _
  | addPizza pizza name =>
      cases changes
      have one : (s.add (.place pizza name)).orders.length = s.orders.length + 1 :=
        List.length_append
      rw [Session.orderCount, Option.map_some, one]
      exact .placed pizza name _
  | removePizza order =>
      obtain ⟨removed, found, ⟨⟩⟩ := Except.elim_eq_ok_iff.mp changes
      rw [Session.length_orders_remove? found]
      exact .withdrawn order _
  | resetSession =>
      cases changes
      exact .cleared _
  | viewPizza order details =>
      cases order with
      | none =>
          cases changes
          exact same ⟨rfl, rfl, rfl, rfl, rfl⟩ rfl
      | some order =>
          obtain ⟨o, -, ⟨⟩⟩ := Except.elim_eq_ok_iff.mp changes
          exact same ⟨rfl, rfl, rfl, rfl, rfl⟩ rfl
  | alterPizza order alteration =>
      obtain ⟨altered, found, rfl⟩ := Except.map_eq_ok_iff.mp changes
      exact same ⟨rfl, rfl, rfl, rfl, rfl⟩ (Session.length_orders_alter found)
  | votePizza order votes =>
      obtain ⟨voted, found, ⟨⟩⟩ := Except.elim_eq_ok_iff.mp changes
      obtain ⟨i, -, rfl⟩ := Option.map_eq_some_iff.mp found
      exact same ⟨rfl, rfl, rfl, rfl, rfl⟩ (Session.length_orders_modify ..)
  | selectTop count =>
      rw [changeOpen] at changes
      split at changes
      · cases changes
      · cases changes
        exact same ⟨rfl, rfl, rfl, rfl, rfl⟩ rfl
  | resetVotes =>
      cases changes
      exact same ⟨rfl, rfl, rfl, rfl, rfl⟩ (List.length_map _)
  | nameSession _ | saveSession _ | loadSession _ | quit =>
      cases changes
      exact same ⟨rfl, rfl, rfl, rfl, rfl⟩ rfl

/-- A statement that succeeds does to the number of orders what the books say.  The books know
only the statements, so they can be kept without running anything. -/
theorem books_of_change {statement : Statement} {session next : Option Session}
    (changes : statement.change session = .ok next) :
    statement.Books (Session.orderCount session) (Session.orderCount next) := by
  cases session with
  | none => exact books_of_changeNone changes
  | some s => exact books_of_changeOpen changes

/-- Leaving never fails.  It is the one statement that ends a conversation, and it can always be
said. -/
theorem change_quit (session : Option Session) : quit.change session = .ok session := by
  cases session <;> rfl

end Statement

/-! ### Books -/

namespace Program

open Statement

/-- The number of sessions opened less the number of sessions closed. -/
def sessionBalance (done : Program) : Int :=
  (done.countP Statement.opens : Int) - done.countP Statement.closes

/-- The statements behind the last one that left a session without orders. -/
def sinceCleared (done : Program) : Program := done.rtakeWhile fun statement => !statement.clears

/-- The number of orders placed less the number of orders withdrawn, since the orders were
last cleared. -/
def orderBalance (done : Program) : Int :=
  (done.sinceCleared.countP Statement.places : Int) - done.sinceCleared.countP Statement.withdraws

/-- The books about statements agree with the number of orders that there are. -/
structure Balanced (done : Program) (orders : Option Nat) : Prop where
  sessions : done.sessionBalance = orders.elim 0 fun _ => 1
  orders : ∀ n, orders = some n → (n : Int) = done.orderBalance

theorem sessionBalance_concat (done : Program) (statement : Statement) :
    (done ++ [statement]).sessionBalance =
      done.sessionBalance + (if statement.opens then 1 else 0) -
        (if statement.closes then 1 else 0) := by
  simp only [sessionBalance, List.countP_append, List.countP_singleton]
  split <;> split <;> omega

/-- A statement that clears the orders starts their balance anew, whatever was placed before. -/
theorem orderBalance_concat_of_clears (done : Program) {statement : Statement}
    (clears : statement.clears = true) : (done ++ [statement]).orderBalance = 0 := by
  rw [orderBalance, sinceCleared, List.rtakeWhile_concat_neg _ _ _ (by simp [clears])]
  rfl

/-- One more statement adds its own entry to the balance of orders, unless it clears them. -/
theorem orderBalance_concat (done : Program) {statement : Statement}
    (keeps : statement.clears = false) :
    (done ++ [statement]).orderBalance =
      done.orderBalance + (if statement.places then 1 else 0) -
        (if statement.withdraws then 1 else 0) := by
  rw [orderBalance, sinceCleared, List.rtakeWhile_concat_pos _ _ _ (by simp [keeps])]
  simp only [orderBalance, sinceCleared, List.countP_append, List.countP_singleton]
  split <;> split <;> omega

namespace Balanced

theorem nil : Balanced [] none := ⟨rfl, fun _ active => by cases active⟩

/-- Books that balance still do with one statement more.  The step of the induction over what has
succeeded. -/
theorem concat {done : Program} {statement : Statement} {before behind : Option Nat}
    (balanced : Balanced done before) (books : statement.Books before behind) :
    Balanced (done ++ [statement]) behind := by
  have sessions := sessionBalance_concat done statement
  rw [balanced.sessions] at sessions
  cases books with
  | opened _ _ =>
      refine ⟨sessions, ?_⟩
      rintro n ⟨⟩
      exact (orderBalance_concat_of_clears done rfl).symm
  | closed _ => exact ⟨sessions, fun n active => by cases active⟩
  | placed _ _ n =>
      refine ⟨sessions, ?_⟩
      rintro _ ⟨⟩
      rw [orderBalance_concat done rfl, ← balanced.orders n rfl]
      rfl
  | withdrawn _ n =>
      refine ⟨sessions, ?_⟩
      rintro _ ⟨⟩
      rw [orderBalance_concat done rfl, ← balanced.orders (n + 1) rfl]
      simp [places, withdraws]
  | cleared _ =>
      refine ⟨sessions, ?_⟩
      rintro _ ⟨⟩
      exact (orderBalance_concat_of_clears done rfl).symm
  | unbooked unbooked _ =>
      rw [unbooked.opens, unbooked.closes] at sessions
      refine ⟨by simpa using sessions, ?_⟩
      intro n active
      rw [orderBalance_concat done unbooked.clears, unbooked.places, unbooked.withdraws,
        balanced.orders n active]
      simp

end Balanced

/-! ### Statements tried one after the other -/

theorem attempt_cons_of_change {statement : Statement} {s : State} {session : Option Session}
    (changes : statement.change s.session = .ok session) (rest : Program) :
    attempt (statement :: rest) s = attempt rest (statement.behind s session) := by
  rw [attempt, effect_of_change changes]

/-- A statement that fails is passed over, and the next is attempted from the same state. -/
theorem attempt_cons_of_change_error {statement : Statement} {s : State} {failure : Failure}
    (fails : statement.change s.session = .error failure) (rest : Program) :
    attempt (statement :: rest) s = attempt rest s := by
  rw [attempt, effect_of_change_error fails]

theorem succeeding_cons_of_change {statement : Statement} {s : State} {session : Option Session}
    (changes : statement.change s.session = .ok session) (rest : Program) :
    succeeding (statement :: rest) s =
      statement :: succeeding rest (statement.behind s session) := by
  rw [succeeding, effect_of_change changes]

theorem succeeding_cons_of_change_error {statement : Statement} {s : State} {failure : Failure}
    (fails : statement.change s.session = .error failure) (rest : Program) :
    succeeding (statement :: rest) s = succeeding rest s := by
  rw [succeeding, effect_of_change_error fails]

/-- Books that balance in front of some statements balance behind them, if those that
succeed are entered. -/
theorem Balanced.attempt {done : Program} {s : State}
    (balanced : Balanced done (Session.orderCount s.session)) (program : Program) :
    Balanced (done ++ program.succeeding s)
      (Session.orderCount (program.attempt s).session) := by
  -- What has been entered stays in front, so the induction is over any books that balance.
  induction program generalizing done s with
  | nil =>
      rw [succeeding, List.append_nil]
      exact balanced
  | cons statement rest ih =>
      cases changes : statement.change s.session with
      | ok session =>
          rw [succeeding_cons_of_change changes, attempt_cons_of_change changes,
            List.append_cons]
          exact ih (balanced.concat (books_of_change changes))
      | error failure =>
          rw [succeeding_cons_of_change_error changes, attempt_cons_of_change_error changes]
          exact ih balanced

/-- The user goes on unless a statement has asked to leave.  No failure ends the attempts. -/
theorem running_attempt (program : Program) (s : State) :
    (program.attempt s).running = (program.all (· != .quit) && s.running) := by
  induction program generalizing s with
  | nil => rfl
  | cons statement rest ih =>
      rw [List.all_cons]
      cases changes : statement.change s.session with
      | ok session =>
          rw [attempt_cons_of_change changes, ih, Bool.and_comm (statement != .quit),
            Bool.and_assoc]
          rfl
      | error failure =>
          have stays : (statement != .quit) = true := by
            rw [bne_iff_ne]
            rintro rfl
            rw [change_quit] at changes
            cases changes
          rw [attempt_cons_of_change_error changes, ih, stays, Bool.true_and]

/-- What can be told about the state behind statements that have been tried from `s` on. -/
structure Accounted (s : State) (tried : Program) : Prop where
  /-- One session at most is open. -/
  sessions : (tried.succeeding s).sessionBalance = 0 ∨ (tried.succeeding s).sessionBalance = 1
  active : (tried.attempt s).session.isSome = true ↔ (tried.succeeding s).sessionBalance = 1
  /-- Each order of the open session has been placed and not been withdrawn. -/
  orders : ∀ session, (tried.attempt s).session = some session →
    (session.orders.length : Int) = (tried.succeeding s).orderBalance
  running : (tried.attempt s).running = true ↔ .quit ∉ tried

/-- **The books are right.**  Statements are tried one after the other, going on after
failures, where no session is open and the user has not asked to leave.  After each number of
them, the sessions opened less the sessions closed are none or one, and a session is open
exactly if it is one.  The open session has as many orders as have been placed less those
withdrawn since it was opened or last reset.  And the user goes on exactly if no statement
has asked to leave. -/
theorem accounted_take {s : State} (running : s.running = true) (closed : s.session = none)
    (program : Program) (n : Nat) : Accounted s (program.take n) := by
  generalize program.take n = tried
  have balanced : Balanced [] (Session.orderCount s.session) := by
    rw [closed]
    exact .nil
  obtain ⟨sessions, orders⟩ := balanced.attempt tried
  rw [List.nil_append] at sessions orders
  refine ⟨?_, ?_, ?_, ?_⟩
  · rw [sessions]
    cases Session.orderCount (attempt tried s).session with
    | none => exact Or.inl rfl
    | some _ => exact Or.inr rfl
  · rw [sessions]
    cases (attempt tried s).session with
    | none => simp [Session.orderCount]
    | some _ => simp [Session.orderCount]
  · intro session active
    apply orders
    rw [active]
    rfl
  · rw [running_attempt, running, Bool.and_true, List.all_eq_true]
    constructor
    · intro stays mem
      exact absurd (stays _ mem) (by decide)
    · intro absent statement mem
      rw [bne_iff_ne]
      rintro rfl
      exact absent mem

/-- One order before a reset and two behind it, of which one is withdrawn once and then not
again, a second session that is refused, a wish to leave, and the end of the session. -/
theorem accounted_take_reset :
    ∃ program : Program,
      program = [.startSession "" 30, .addPizza .standard "", .resetSession,
        .addPizza .standard "a", .addPizza .standard "b", .removePizza (.name "a"),
        .removePizza (.name "a"), .startSession "" 30, .quit, .endSession] ∧
      (attempt (program.take 9) {}).session =
        some ⟨"", [⟨.standard, 0, "b"⟩], 30⟩ ∧
      (succeeding (program.take 9) {}).orderBalance = 1 ∧
      (attempt (program.take 10) {}).session = none ∧
      (succeeding (program.take 10) {}).sessionBalance = 0 ∧
      ∀ n, Accounted {} (program.take n) :=
  ⟨_, rfl, rfl, rfl, rfl, rfl, accounted_take rfl rfl _⟩

end Program

end Pizzeria
