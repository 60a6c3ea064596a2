import Pizzeria.Proofs.Independence
import Pizzeria.Proofs.Rebuilding
import Pizzeria.Proofs.Sequencing

/-!
# The full listing and the views of single orders

Orders can be viewed all at once or one at a time.  The listing counts them as it goes along;
the view of one order is given a specifier, finds the position of the order, and numbers the
order by it.  Both number the order at a position alike, and a number refers to the order that
it was printed for.  So the listing is made of the views of its orders, and a view under any
specifier is the view under the number of the order.

Names may contain newlines, and so may a rule.  What is compared are the lines on the console,
into which texts have been divided.

## Main Definitions

* `Statement.Shows` — a statement prints some lines and does nothing else.
* `State.Listed` — the lines of the listing are those of the views.

## Main Results

* `Statement.shows_viewAll`, `Statement.shows_viewOne` — the lines of the two kinds of view.
-/

namespace Pizzeria

/-- The statement succeeds, prints the lines, and does nothing else. -/
def Statement.Shows (statement : Statement) (state : State) (lines : List Console.Line) : Prop :=
  statement.effect state =
    .ok () { state with console := { state.console with lines := state.console.lines ++ lines } }

namespace State

/-- The lines that texts make when they are printed now. -/
def linesOf (state : State) (texts : List Text) : List Console.Line :=
  Console.outputLines state.console.statement texts

/-- An empty line that is printed now. -/
def blankLine (state : State) : Console.Line := ⟨[], .output, state.console.statement⟩

/-- The lines of the rule that closes an output. -/
def ruleLines (state : State) : List Console.Line :=
  state.linesOf [horizontalRule state.settings.ruleChar]

theorem linesOf_append (state : State) (texts texts' : List Text) :
    state.linesOf (texts ++ texts') = state.linesOf texts ++ state.linesOf texts' :=
  List.flatMap_append

theorem linesOf_flatMap {α : Type} (state : State) (xs : List α) (f : α → List Text) :
    state.linesOf (xs.flatMap f) = xs.flatMap fun x => state.linesOf (f x) :=
  List.flatMap_assoc

/-- A report ends with its rule, which is printed like a line of the report. -/
theorem linesOf_ruled (state : State) (texts : List Text) :
    state.linesOf (Statement.ruled state.settings texts) = state.linesOf texts ++ state.ruleLines :=
  state.linesOf_append texts _

/-- The lines that the order at a position has in views, without the rule. -/
def orderLines (state : State) (details : Bool) (i : Nat) (o : Order) : List Console.Line :=
  state.linesOf (o.report (some (i + 1)) details state.settings)

end State

/-! ### What views show -/

namespace Statement

/-- A statement that leaves the session as it is shows the texts that it prints.  Views are such
statements. -/
theorem shows_of_change {statement : Statement} {state : State} (stays : statement ≠ .quit)
    (unchanged : statement.change state.session = .ok state.session) :
    statement.Shows state (state.linesOf (statement.printed state.settings state.session)) := by
  have running : (statement != .quit && state.running) = state.running := by
    rw [bne_iff_ne.mpr stays, Bool.true_and]
  rw [Shows, effect_of_change unchanged, behind, Console.printAll_eq, running]
  rfl

variable {state : State} {s : Session} (active : state.session = some s) (details : Bool)

include active

/-- The listing is made of the lines of the orders, each under its position.  The positions are
counted from one, as references count them. -/
theorem shows_viewAll :
    (viewPizza none details).Shows state
      (state.linesOf [s.heading] ++ [state.blankLine] ++
        (s.orders.mapIdx (state.orderLines details)).flatMap (· ++ [state.blankLine]) ++
        state.ruleLines) := by
  have unchanged : (viewPizza none details).change state.session = .ok state.session := by
    rw [active]
    rfl
  have shows := shows_of_change (by simp) unchanged
  have orders : state.linesOf (s.orders.zipIdx.flatMap fun entry =>
      entry.1.report (some (entry.2 + 1)) details state.settings ++ [[]]) =
        (s.orders.mapIdx (state.orderLines details)).flatMap (· ++ [state.blankLine]) := by
    rw [State.linesOf_flatMap, List.mapIdx_eq_zipIdx_map, List.flatMap_map]
    simp only [State.linesOf_append]
    rfl
  have texts : printed state.settings (some s) (viewPizza none details) =
      ruled state.settings ([s.heading] ++ [[]] ++ s.orders.zipIdx.flatMap fun entry =>
        entry.1.report (some (entry.2 + 1)) details state.settings ++ [[]]) := rfl
  rw [active, texts, State.linesOf_ruled, State.linesOf_append, State.linesOf_append,
    orders] at shows
  exact shows

/-- A view under a specifier shows the order that it refers to, under its position.  It is the
entry that the listing has for it. -/
theorem shows_viewOne {order : Specifier} {i : Nat} {o : Order}
    (found : s.position? order = some i) (there : s.orders[i]? = some o) :
    (viewPizza (some order) details).Shows state
      (state.orderLines details i o ++ state.ruleLines) := by
  have unchanged : (viewPizza (some order) details).change state.session = .ok state.session := by
    rw [active, change, changeOpen, Session.get?, found, Option.bind_some, there]
    rfl
  have shows := shows_of_change (by simp) unchanged
  have texts : printed state.settings (some s) (viewPizza (some order) details) =
      ruled state.settings (o.report (some (i + 1)) details state.settings) := by
    simp only [printed, Option.elim_some, found, there]
  rw [active, texts, State.linesOf_ruled] at shows
  exact shows

/-- A view that succeeds has found its order, so there is an entry to show. -/
theorem exists_position_of_viewed {order : Specifier} {state' : State}
    (viewed : (viewPizza (some order) details).effect state = .ok () state') :
    ∃ k, s.position? order = some k := by
  cases found : s.position? order with
  | some k => exact ⟨k, rfl⟩
  | none =>
      have fails : (viewPizza (some order) details).change state.session = .error .noSuchPizza := by
        rw [active, change, changeOpen, Session.get?, found]
        rfl
      rw [effect_of_change_error fails] at viewed
      cases viewed

end Statement

/-! ### The listing -/

/-- The listing of the session is its heading, a blank line, the views in their order, each
without its rule and with a blank line below it, and the rule.  Each of the views is what the
number of the order shows, and what a view under any specifier does is what it does under the
number of the order that the specifier refers to. -/
structure State.Listed (state : State) (s : Session) (details : Bool)
    (views : List (List Console.Line)) : Prop where
  length : views.length = s.orders.length
  listing : (Statement.viewPizza none details).Shows state
    (state.linesOf [s.heading] ++ [state.blankLine] ++ views.flatMap (· ++ [state.blankLine]) ++
      state.ruleLines)
  single : ∀ (i : Nat) (view : List Console.Line), views[i]? = some view →
    (Statement.viewPizza (some (.index (Int32.ofNat (i + 1)))) details).Shows state
      (view ++ state.ruleLines)
  specified : ∀ (order : Specifier) (state' : State),
    (Statement.viewPizza (some order) details).effect state = .ok () state' →
      ∃ k, s.position? order = some k ∧
        (Statement.viewPizza (some (.index (Int32.ofNat (k + 1)))) details).effect state =
          .ok () state'

/-- **The full listing agrees with the views of single orders.**  In a session whose orders can
be numbered, and whatever the settings, the lines of the listing behind its heading are those
that the numbers of the orders show one after the other; and a view that succeeds under some
specifier does what it does under the number of the order that the specifier refers to. -/
theorem State.exists_listed {state : State} {s : Session} (active : state.session = some s)
    (few : s.orders.length < 2 ^ 31) (details : Bool) :
    ∃ views, state.Listed s details views := by
  refine ⟨s.orders.mapIdx (state.orderLines details), List.length_mapIdx,
    Statement.shows_viewAll active details, ?_, ?_⟩
  · intro i view listed
    rw [List.getElem?_mapIdx, Option.map_eq_some_iff] at listed
    obtain ⟨o, there, rfl⟩ := listed
    have within : i < s.orders.length := (List.getElem?_eq_some_iff.mp there).1
    exact Statement.shows_viewOne active details (Session.position?_index few within) there
  · intro order state' viewed
    obtain ⟨k, found⟩ := Statement.exists_position_of_viewed active details viewed
    obtain ⟨o, there⟩ := Session.exists_order_of_position? found
    have within : k < s.orders.length := (List.getElem?_eq_some_iff.mp there).1
    have numbered :=
      Statement.shows_viewOne active details (Session.position?_index few within) there
    have same := (Statement.shows_viewOne active details found there).symm.trans viewed
    exact ⟨k, found, numbered.trans same⟩

/-- Two orders of one pizza, one under a name of two lines, and a rule that consists of empty
lines. -/
theorem State.exists_listed_newlines :
    ∃ (state : State) (s : Session), s.orders = [⟨.standard, 1, "a\nb"⟩, ⟨.standard, -2, ""⟩] ∧
      state.settings.ruleChar = '\n' ∧ state.session = some s ∧ s.orders.length < 2 ^ 31 ∧
      ∃ views, state.Listed s true views := by
  have few : [(⟨.standard, 1, "a\nb"⟩ : Order), ⟨.standard, -2, ""⟩].length < 2 ^ 31 := by decide
  exact ⟨{ session := some ⟨"x\ny", _, 30⟩, settings := { ruleChar := '\n' } }, _, rfl, rfl, rfl,
    few, State.exists_listed rfl few true⟩

end Pizzeria
