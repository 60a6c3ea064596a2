import Pizzeria.Proofs.Accounting

/-!
# Orders are updated independently

A vote changes the votes of one order, and an alteration its pizza.  Every statement looks up
its order afresh, in the session that the statements before it have left; but numbers count
orders, names are compared with names, and neither of the two kinds of update adds an order or
changes a name.  So an update finds the same order at all times, and reads and writes that order
alone.

Two lists of updates, each to an order of its own, therefore do not meet: in whatever turns
their statements come, each of them finds its order as the statements of its own list have left
it.

## Main Definitions

* `Specifier.fits` — what a specifier looks for in an order.
* `Update`, `Update.statement` — a vote or an alteration, and the statement that asks for it.
* `Update.RefersTo` — the update names its order by number or by name.
* `Program.outcomes` — what comes of each of some statements that are all tried.
* `Interleaved` — a list made of two lists, each in its own order.

## Main Results

* `Session.position?_modify` — a change that a specifier does not look at does not move it.
* `Update.attempt_cons` — an update changes its order, and has an outcome that depends on that
  order alone.
* `Update.outcomes_modify` — a change to another order makes no difference to updates.
* `Update.attempt_of_interleaved` — interleaved updates make one change to each of the two orders.
-/

/-- A change in one place that a predicate does not see does not move the first place where it
holds. -/
theorem List.findIdx?_modify {α : Type} {p : α → Bool} {change : α → α}
    (unseen : ∀ a, p (change a) = p a) (l : List α) (i : Nat) :
    (l.modify i change).findIdx? p = l.findIdx? p := by
  induction l generalizing i with
  | nil => rw [List.modify_nil]
  | cons a l ih =>
      cases i with
      | zero => rw [List.modify_zero_cons, List.findIdx?_cons, List.findIdx?_cons, unseen]
      | succ i => rw [List.modify_succ_cons, List.findIdx?_cons, List.findIdx?_cons, ih]

namespace Pizzeria

/-! ### What a specifier refers to -/

/-- What a specifier looks for in an order.  A number looks at no order, it only counts. -/
def Specifier.fits (o : Order) : Specifier → Bool
  | .index _ => true
  | .name wanted => o.name == wanted
  | .replica pizza => o.pizza.same pizza

/-- The specifier is a number or a name. -/
inductive Specifier.IsDirect : Specifier → Prop where
  | index (number : Int32) : IsDirect (.index number)
  | name (name : Text) : IsDirect (.name name)

theorem Specifier.IsDirect.fits_of_name_eq {order : Specifier} (direct : order.IsDirect)
    {o o' : Order} (same : o'.name = o.name) : order.fits o' = order.fits o := by
  cases direct with
  | index _ => rfl
  | name _ => rw [fits, fits, same]

namespace Session

/-- A change that a specifier does not look at does not change what it refers to.  The change may
be to any order, the one that is referred to included. -/
theorem position?_modify {order : Specifier} {change : Order → Order}
    (unseen : ∀ o, order.fits (change o) = order.fits o) (s : Session) (i : Nat) :
    (s.modify i change).position? order = s.position? order := by
  cases order with
  | index n => rw [position?, position?, length_orders_modify]
  | name name => exact List.findIdx?_modify unseen s.orders i
  | replica pizza => exact List.findIdx?_modify unseen s.orders i

/-- A specifier refers to an order that is there, never to one behind the last. -/
theorem exists_order_of_position? {s : Session} {order : Specifier} {i : Nat}
    (found : s.position? order = some i) : ∃ o, s.orders[i]? = some o := by
  have within : i < s.orders.length := by
    cases order with
    | index n =>
        rw [position?] at found
        split at found
        · cases found
          omega
        · cases found
    | name _ | replica _ => exact (List.findIdx?_eq_some_iff_getElem.mp found).1
  exact ⟨s.orders[i], List.getElem?_eq_getElem within⟩

/-- Only what a change makes of the order that is there counts.  So a change may be replaced by
one that agrees with it on this order. -/
theorem modify_congr {s : Session} {i : Nat} {o : Order} (there : s.orders[i]? = some o)
    {change change' : Order → Order} (same : change o = change' o) :
    s.modify i change = s.modify i change' := by
  have orders : s.orders.modify i change = s.orders.modify i change' := by
    apply List.ext_getElem?
    intro k
    rw [List.getElem?_modify, List.getElem?_modify]
    by_cases here : i = k
    · subst here
      simp [there, same]
    · simp [here]
  rw [modify, modify, orders]

theorem modify_modify_ne {i j : Nat} (apart : i ≠ j) (s : Session)
    (change change' : Order → Order) :
    (s.modify i change).modify j change' = (s.modify j change').modify i change := by
  unfold modify
  rw [List.modify_modify_ne change change' s.orders apart]

theorem modify_modify_eq (s : Session) (i : Nat) (change change' : Order → Order) :
    (s.modify i change).modify i change' = s.modify i (change' ∘ change) := by
  unfold modify
  rw [List.modify_modify_eq]

theorem modify_id (s : Session) (i : Nat) : s.modify i id = s := by
  rw [modify, List.modify_id]

theorem getElem?_orders_modify_ne {i k : Nat} (elsewhere : k ≠ i) (s : Session)
    (change : Order → Order) : (s.modify i change).orders[k]? = s.orders[k]? := by
  show (s.orders.modify i change)[k]? = s.orders[k]?
  rw [List.getElem?_modify]
  simp [Ne.symm elsewhere]

end Session

/-! ### Updates -/

/-- The state with a session open in it. -/
def State.opened (state : State) (s : Session) : State := { state with session := some s }

theorem State.opened_of_active {state : State} {s : Session} (active : state.session = some s) :
    state.opened s = state := by
  rw [opened, ← active]

/-- What comes of each statement where all are tried one after the other, whether those before
succeeded or not; `none` for a statement that succeeds. -/
def Program.outcomes : Program → State → List (Option Failure)
  | [], _ => []
  | statement :: rest, s =>
      match statement.effect s with
      | .ok _ s' => none :: outcomes rest s'
      | .error failure s' => some failure :: outcomes rest s'

/-- A vote for an order, or an alteration of its pizza. -/
inductive Update where
  | vote (order : Specifier) (votes : Int32)
  | alter (order : Specifier) (alteration : Alteration)
  deriving DecidableEq

namespace Update

open Program (attempt outcomes)

/-- The order that the update is for. -/
def order : Update → Specifier
  | vote order _ | alter order _ => order

/-- The statement that asks for the update. -/
def statement : Update → Statement
  | vote order votes => .votePizza order votes
  | alter order alteration => .alterPizza order alteration

/-- The statements that ask for updates, one after the other. -/
def program (us : List Update) : Program := us.map statement

/-- What the update makes of its order. -/
def revise (o : Order) : Update → Except Failure Order
  | vote _ votes => .ok (o.addVotes votes)
  | alter _ alteration => (o.pizza.alter alteration).map fun pizza => { o with pizza := pizza }

/-- The order behind the update; an update that fails leaves it as it was. -/
def change (u : Update) (o : Order) : Order :=
  match u.revise o with
  | .ok revised => revised
  | .error _ => o

/-- Why the update of an order fails, if it does. -/
def failure? (u : Update) (o : Order) : Option Failure :=
  match u.revise o with
  | .ok _ => none
  | .error failure => some failure

/-- The order behind some updates, one after the other. -/
def changeAll (us : List Update) (o : Order) : Order := us.foldl (fun o u => u.change o) o

/-- The update refers to the order at a position of a session, by number or by name. -/
structure RefersTo (s : Session) (i : Nat) (u : Update) : Prop where
  direct : u.order.IsDirect
  found : s.position? u.order = some i

theorem name_revise {u : Update} {o revised : Order} (succeeds : u.revise o = .ok revised) :
    revised.name = o.name := by
  cases u with
  | vote _ _ =>
      cases succeeds
      rfl
  | alter _ _ =>
      obtain ⟨pizza, -, rfl⟩ := Except.map_eq_ok_iff.mp succeeds
      rfl

/-- No update changes the name of an order.  Hence a reference by name means the same order
throughout. -/
theorem name_change (u : Update) (o : Order) : (u.change o).name = o.name := by
  rw [change]
  cases outcome : u.revise o with
  | ok revised => exact name_revise outcome
  | error _ => rfl

/-- A change that leaves the name of an order does not change what updates refer to.  References
by the pizza itself have to be excluded, since alterations change it. -/
theorem RefersTo.modify {u : Update} {s : Session} {i : Nat} (refers : u.RefersTo s i)
    {change : Order → Order} (kept : ∀ o, (change o).name = o.name) (k : Nat) :
    u.RefersTo (s.modify k change) i := by
  refine ⟨refers.direct, ?_⟩
  rw [Session.position?_modify, refers.found]
  intro o
  exact refers.direct.fits_of_name_eq (kept o)

theorem refersTo_modify {us : List Update} {s : Session} {i : Nat}
    (refer : ∀ u ∈ us, u.RefersTo s i) {change : Order → Order}
    (kept : ∀ o, (change o).name = o.name) (k : Nat) :
    ∀ u ∈ us, u.RefersTo (s.modify k change) i := by
  intro u mem
  exact (refer u mem).modify kept k

/-- An update of an order that is there changes that order alone, unless it fails.  The statement
finds the order by its reference and then does what the update says. -/
theorem change_statement {u : Update} {s : Session} {i : Nat} {o : Order}
    (found : s.position? u.order = some i) (there : s.orders[i]? = some o) :
    u.statement.change (some s) = (u.revise o).map fun _ => some (s.modify i u.change) := by
  cases u with
  | vote order votes =>
      show (s.vote? order votes).elim _ _ = _
      rw [Session.vote?, show s.position? order = some i from found]
      rfl
  | alter order alteration =>
      show (s.alter order alteration).map some = _
      rw [Session.alter, show s.position? order = some i from found]
      simp only [there, revise]
      cases alters : o.pizza.alter alteration with
      | error _ => rfl
      | ok pizza =>
          have same : { o with pizza := pizza } = (alter order alteration).change o := by
            rw [change, revise, alters]
            rfl
          exact congrArg (fun altered => Except.ok (some altered)) (Session.modify_congr there same)

/-- An update prints nothing, so interleaved updates leave the console as it was. -/
theorem behind_statement (u : Update) (state : State) (s t : Session) :
    u.statement.behind (state.opened s) (some t) = state.opened t := by
  cases u <;> rfl

/-- What comes of the statement that asks for an update: the order is changed as the update
changes it, failed or not. -/
theorem attempt_cons {u : Update} {s : Session} {i : Nat} {o : Order}
    (found : s.position? u.order = some i) (there : s.orders[i]? = some o) (rest : Program)
    (state : State) :
    attempt (u.statement :: rest) (state.opened s) =
        attempt rest (state.opened (s.modify i u.change)) ∧
      outcomes (u.statement :: rest) (state.opened s) =
        u.failure? o :: outcomes rest (state.opened (s.modify i u.change)) := by
  have changes := change_statement found there
  cases revises : u.revise o with
  | ok revised =>
      rw [revises] at changes
      have succeeds := Statement.effect_of_change (s := state.opened s) changes
      rw [behind_statement] at succeeds
      have none : u.failure? o = none := by rw [failure?, revises]
      rw [attempt, outcomes, succeeds, none]
      exact ⟨rfl, rfl⟩
  | error failure =>
      rw [revises] at changes
      have fails := Statement.effect_of_change_error (s := state.opened s) changes
      have reason : u.failure? o = some failure := by rw [failure?, revises]
      have unchanged : s.modify i u.change = s := by
        have kept : u.change o = id o := by
          rw [change, revises]
          rfl
        rw [Session.modify_congr there kept, Session.modify_id]
      rw [attempt, outcomes, fails, reason, unchanged]
      exact ⟨rfl, rfl⟩

/-- A change to another order makes no difference to what comes of updates.  This lets the updates
of two users pass each other. -/
theorem outcomes_modify {us : List Update} {s : Session} {i j : Nat}
    (refer : ∀ u ∈ us, u.RefersTo s j) (apart : i ≠ j) {change : Order → Order}
    (kept : ∀ o, (change o).name = o.name) (state : State) :
    outcomes (program us) (state.opened (s.modify i change)) =
      outcomes (program us) (state.opened s) := by
  induction us generalizing s with
  | nil => rfl
  | cons u us ih =>
      obtain ⟨next, others⟩ := List.forall_mem_cons.mp refer
      obtain ⟨o, there⟩ := Session.exists_order_of_position? next.found
      have there' : (s.modify i change).orders[j]? = some o := by
        rw [Session.getElem?_orders_modify_ne apart.symm, there]
      -- The two changes are to different orders, so the first can be made last.
      have elsewhere := (attempt_cons (next.modify kept i).found there' (program us) state).2
      rw [Session.modify_modify_ne apart, ih (refersTo_modify others u.name_change j)] at elsewhere
      exact elsewhere.trans (attempt_cons next.found there (program us) state).2.symm

end Update

/-! ### Interleaved lists -/

/-- Whose turn it is. -/
inductive Turn where
  | first | second
  deriving DecidableEq, Repr

/-- The third list is made of the first two, each in its own order, in the given turns. -/
inductive Interleaved {α : Type} : List Turn → List α → List α → List α → Prop where
  | nil : Interleaved [] [] [] []
  | first {turns : List Turn} {xs ys zs : List α} (x : α) (rest : Interleaved turns xs ys zs) :
      Interleaved (.first :: turns) (x :: xs) ys (x :: zs)
  | second {turns : List Turn} {xs ys zs : List α} (y : α) (rest : Interleaved turns xs ys zs) :
      Interleaved (.second :: turns) xs (y :: ys) (y :: zs)

namespace Update

open Program (attempt outcomes)

/-- Updates of two orders, in whatever turns, come to one change of each, and each has the
outcome that it has without those of the other order. -/
theorem attempt_of_interleaved {turns : List Turn} {us vs ws : List Update}
    (interleaved : Interleaved turns us vs ws) {s : Session} {i j : Nat} (apart : i ≠ j)
    (first : ∀ u ∈ us, u.RefersTo s i) (second : ∀ v ∈ vs, v.RefersTo s j) (state : State) :
    attempt (program ws) (state.opened s) =
        state.opened ((s.modify i (changeAll us)).modify j (changeAll vs)) ∧
      Interleaved turns (outcomes (program us) (state.opened s))
        (outcomes (program vs) (state.opened s)) (outcomes (program ws) (state.opened s)) := by
  induction interleaved generalizing s with
  | nil =>
      refine ⟨?_, .nil⟩
      show state.opened s = state.opened ((s.modify i id).modify j id)
      rw [Session.modify_id, Session.modify_id]
  | @first turns us vs ws u rest ih =>
      obtain ⟨next, later⟩ := List.forall_mem_cons.mp first
      obtain ⟨o, there⟩ := Session.exists_order_of_position? next.found
      obtain ⟨left, result⟩ := attempt_cons next.found there (program ws) state
      obtain ⟨behind, results⟩ := ih (refersTo_modify later u.name_change i)
        (refersTo_modify second u.name_change i)
      have own := (attempt_cons next.found there (program us) state).2
      refine ⟨?_, ?_⟩
      · rw [behind, Session.modify_modify_eq] at left
        exact left
      · rw [outcomes_modify second apart u.name_change] at results
        show Interleaved _ (outcomes (u.statement :: program us) _) _
          (outcomes (u.statement :: program ws) _)
        rw [own, result]
        exact .first _ results
  | @second turns us vs ws v rest ih =>
      obtain ⟨next, later⟩ := List.forall_mem_cons.mp second
      obtain ⟨o, there⟩ := Session.exists_order_of_position? next.found
      obtain ⟨left, result⟩ := attempt_cons next.found there (program ws) state
      obtain ⟨behind, results⟩ := ih (refersTo_modify first v.name_change j)
        (refersTo_modify later v.name_change j)
      have own := (attempt_cons next.found there (program vs) state).2
      refine ⟨?_, ?_⟩
      -- The change to the other order is made first, as if all its updates had come before.
      · rw [behind, Session.modify_modify_ne apart.symm, Session.modify_modify_eq] at left
        exact left
      · rw [outcomes_modify first apart.symm v.name_change] at results
        show Interleaved _ _ (outcomes (v.statement :: program vs) _)
          (outcomes (v.statement :: program ws) _)
        rw [own, result]
        exact .second _ results

/-- **Updates of different orders do not meet.**  Two lists of votes and alterations name their
orders by number or by name, those of the first list one order and those of the second another
one.  Their statements are tried in any turns that keep each list in its own order, going on
after failures.  Then each statement has the outcome that it has where its own list is tried
alone, and the session that is left is the same in whatever turns they come.  In it every order
but the two is as it was. -/
theorem interleaved_exact {s : Session} {i j : Nat} (apart : i ≠ j) {us vs : List Update}
    (first : ∀ u ∈ us, u.RefersTo s i) (second : ∀ v ∈ vs, v.RefersTo s j) :
    ∃ left : Session,
      left.name = s.name ∧ left.reserved = s.reserved ∧
      left.orders.length = s.orders.length ∧
      (∀ k, k ≠ i → k ≠ j → left.orders[k]? = s.orders[k]?) ∧
      ∀ (turns : List Turn) (ws : List Update), Interleaved turns us vs ws →
        ∀ state : State, state.session = some s →
          (program ws).attempt state = { state with session := some left } ∧
          Interleaved turns ((program us).outcomes state) ((program vs).outcomes state)
            ((program ws).outcomes state) := by
  refine ⟨(s.modify i (changeAll us)).modify j (changeAll vs), rfl, rfl, ?_, ?_, ?_⟩
  · rw [Session.length_orders_modify, Session.length_orders_modify]
  · intro k notFirst notSecond
    rw [Session.getElem?_orders_modify_ne notSecond, Session.getElem?_orders_modify_ne notFirst]
  · intro turns ws interleaved state active
    have run := attempt_of_interleaved interleaved apart first second state
    rwa [State.opened_of_active active] at run

/-- Two orders of one name, of which the name means the first; votes up to the bound and one
more; and an alteration that fails. -/
theorem interleaved_exact_at_bound :
    ∃ (s : Session) (us vs ws : List Update),
      s.orders = [⟨.standard, 0, "a"⟩, ⟨.standard, 5, "a"⟩,
        ⟨{ Pizza.standard with toppings := [⟨.whole, .ham⟩] }, 0, "b"⟩] ∧
      us = [.vote (.name "a") 2147483647, .vote (.index 1) 1] ∧
      vs = [.alter (.name "b") (.addTopping ⟨.whole, .ham⟩), .vote (.index 3) (-2)] ∧
      Interleaved [.second, .first, .first, .second] us vs ws ∧
      (∀ u ∈ us, u.RefersTo s 0) ∧ (∀ v ∈ vs, v.RefersTo s 2) ∧
      (program ws).outcomes { session := some s } =
        [some .arrangementAlreadyPresent, none, none, none] ∧
      ∃ left : Session,
        (program ws).attempt { session := some s } = { session := some left } ∧
        left.orders[0]? = some ⟨.standard, 2147483647, "a"⟩ ∧
        left.orders[1]? = s.orders[1]? := by
  let s : Session := ⟨"", [⟨.standard, 0, "a"⟩, ⟨.standard, 5, "a"⟩,
    ⟨{ Pizza.standard with toppings := [⟨.whole, .ham⟩] }, 0, "b"⟩], 30⟩
  have first : ∀ u ∈ [vote (.name "a") 2147483647, vote (.index 1) 1], u.RefersTo s 0 := by
    rw [List.forall_mem_cons, List.forall_mem_singleton]
    exact ⟨⟨.name _, rfl⟩, ⟨.index _, rfl⟩⟩
  have second : ∀ v ∈ [alter (.name "b") (.addTopping ⟨.whole, .ham⟩), vote (.index 3) (-2)],
      v.RefersTo s 2 := by
    rw [List.forall_mem_cons, List.forall_mem_singleton]
    exact ⟨⟨.name _, rfl⟩, ⟨.index _, rfl⟩⟩
  have turns := Interleaved.second (alter (.name "b") (.addTopping ⟨.whole, .ham⟩))
    (.first (vote (.name "a") 2147483647) (.first (vote (.index 1) 1)
      (.second (vote (.index 3) (-2)) .nil)))
  obtain ⟨left, -, -, -, others, run⟩ := interleaved_exact (by decide) first second
  have leaves := (run _ _ turns { session := some s } rfl).1
  refine ⟨s, _, _, _, rfl, rfl, rfl, turns, first, second, rfl, left, leaves, ?_, ?_⟩
  · cases leaves
    rfl
  · exact others 1 (by decide) (by decide)

end Update

end Pizzeria
