import Mathlib.Algebra.BigOperators.Group.List.Basic
import Mathlib.Algebra.Ring.Int.Defs
import Pizzeria.Proofs.Independence

/-!
# Vote totals

Votes are counted up to a bound, so in general it matters in which order they come: a bound
that has been reached and left again has cost votes.  Where no vote takes anything away a count
that has reached the upper bound stays there, and it makes no difference whether it is cut off
at each vote or once at the end.  Nor do votes move what a specifier refers to, whether it
counts orders, compares names or compares pizzas.  So the votes of an order are its first votes
and the sum of all that is for it, cut off once; and the sum does not depend on the order of its
terms.

## Main Definitions

* `Ballot` — votes for the order that a specifier refers to.
* `Session.poll` — the session behind some ballots, one after the other.
* `Session.tally` — what the ballots for an order add up to.

## Main Results

* `Order.raise_raise` — amounts that are not negative add up, in spite of the bounds.
* `Session.poll_eq` — ballots raise each order by its tally.
-/

namespace Pizzeria

/-! ### Counting up to a bound -/

/-- A number is brought into 32 bits by cutting it off at the bounds, not by going around. -/
theorem toInt_ofIntClamp_eq (n : Int) :
    (Int32.ofIntClamp n).toInt = max (-2147483648) (min 2147483647 n) := by
  unfold Int32.ofIntClamp
  have least : Int32.minValue.toInt = -2147483648 := rfl
  have greatest : Int32.maxValue.toInt = 2147483647 := rfl
  split
  · split
    · rw [Int32.toInt_ofIntLE]
      omega
    · omega
  · omega

namespace Order

/-- The order with its votes raised by a whole amount at once, up to the bounds. -/
def raise (amount : Int) (o : Order) : Order :=
  { o with votes := Int32.ofIntClamp (o.votes.toInt + amount) }

theorem least_votes (o : Order) : -2147483648 ≤ o.votes.toInt := o.votes.minValue_le_toInt

/-- No votes change nothing, so an order for which no ballot is cast stays as it is. -/
theorem raise_zero (o : Order) : o.raise 0 = o := by
  rw [raise, Int.add_zero, Int32.ofIntClamp_toInt]

/-- Amounts that are not negative add up: what the first one loses at the bound would be lost
at the end. -/
theorem raise_raise {a b : Int} (first : 0 ≤ a) (second : 0 ≤ b) (o : Order) :
    (o.raise a).raise b = o.raise (a + b) := by
  have least := o.least_votes
  have votes : Int32.ofIntClamp ((Int32.ofIntClamp (o.votes.toInt + a)).toInt + b) =
      Int32.ofIntClamp (o.votes.toInt + (a + b)) := by
    apply Int32.toInt.inj
    rw [toInt_ofIntClamp_eq, toInt_ofIntClamp_eq, toInt_ofIntClamp_eq]
    omega
  rw [raise, raise, raise, votes]

/-- An amount that is not negative can only meet the upper bound.  This is where ballots that take
votes away have to be excluded: with them, the order of the ballots would matter. -/
theorem toInt_votes_raise {a : Int} (nonneg : 0 ≤ a) (o : Order) :
    (o.raise a).votes.toInt = min 2147483647 (o.votes.toInt + a) := by
  have least := o.least_votes
  rw [raise, toInt_ofIntClamp_eq]
  omega

end Order

/-! ### Ballots -/

/-- Votes for the order that a specifier refers to. -/
structure Ballot where
  order : Specifier
  amount : Int32
  deriving DecidableEq

namespace Session

/-- The session behind a ballot; one that refers to no order does nothing. -/
def voted (s : Session) (ballot : Ballot) : Session :=
  (s.vote? ballot.order ballot.amount).getD s

/-- The session behind some ballots, one after the other. -/
def poll (s : Session) (ballots : List Ballot) : Session := ballots.foldl voted s

/-- The session with the votes of each order raised by the amount for its position. -/
def raised (s : Session) (amounts : Nat → Int) : Session :=
  { s with orders := s.orders.mapIdx fun k => Order.raise (amounts k) }

/-- What the ballots add up to that refer to the order at a position. -/
def tally (s : Session) (ballots : List Ballot) (k : Nat) : Int :=
  ((ballots.filter fun b => s.position? b.order == some k).map fun b => b.amount.toInt).sum

theorem voted_of_missing {s : Session} {ballot : Ballot}
    (missing : s.position? ballot.order = none) : s.voted ballot = s := by
  rw [voted, vote?, missing]
  rfl

theorem voted_of_found {s : Session} {ballot : Ballot} {i : Nat}
    (found : s.position? ballot.order = some i) :
    s.voted ballot = s.modify i (Order.raise ballot.amount.toInt) := by
  rw [voted, vote?, found]
  rfl

/-- No specifier looks at votes.  So a ballot means the same order whatever ballots were cast
before it. -/
theorem position?_voted (s : Session) (ballot : Ballot) (order : Specifier) :
    (s.voted ballot).position? order = s.position? order := by
  cases found : s.position? ballot.order with
  | none => rw [voted_of_missing found]
  | some i =>
      rw [voted_of_found found]
      apply position?_modify
      intro o
      cases order <;> rfl

/-- A tally counts ballots by the orders that they refer to, and these are found as before. -/
theorem tally_voted (s : Session) (ballot : Ballot) (ballots : List Ballot) (k : Nat) :
    (s.voted ballot).tally ballots k = s.tally ballots k := by
  unfold tally
  simp only [position?_voted]

theorem tally_cons_of_found {s : Session} {ballot : Ballot} {k : Nat}
    (found : s.position? ballot.order = some k) (ballots : List Ballot) :
    s.tally (ballot :: ballots) k = ballot.amount.toInt + s.tally ballots k := by
  unfold tally
  rw [List.filter_cons_of_pos (by simpa using found), List.map_cons, List.sum_cons]

theorem tally_cons_of_other {s : Session} {ballot : Ballot} {k : Nat}
    (other : s.position? ballot.order ≠ some k) (ballots : List Ballot) :
    s.tally (ballot :: ballots) k = s.tally ballots k := by
  unfold tally
  rw [List.filter_cons_of_neg (by simpa using other)]

/-- Ballots that take nothing away add up to a tally that takes nothing away. -/
theorem tally_nonneg {ballots : List Ballot} (nonneg : ∀ b ∈ ballots, 0 ≤ b.amount.toInt)
    (s : Session) (k : Nat) : 0 ≤ s.tally ballots k := by
  induction ballots with
  | nil => exact Int.le_refl 0
  | cons ballot ballots ih =>
      obtain ⟨first, others⟩ := List.forall_mem_cons.mp nonneg
      by_cases found : s.position? ballot.order = some k
      · rw [tally_cons_of_found found]
        exact Int.add_nonneg first (ih others)
      · rw [tally_cons_of_other found]
        exact ih others

/-- A sum does not depend on the order of its terms, which is all there is to say about the order
of ballots once a poll is a matter of tallies. -/
theorem tally_perm {ballots ballots' : List Ballot} (perm : ballots.Perm ballots') (s : Session)
    (k : Nat) : s.tally ballots k = s.tally ballots' k :=
  ((perm.filter _).map _).sum_eq

/-- Each order is raised by the amount for its position, and none is added or removed. -/
theorem getElem?_orders_raised (s : Session) (amounts : Nat → Int) (k : Nat) :
    (s.raised amounts).orders[k]? = s.orders[k]?.map (Order.raise (amounts k)) :=
  List.getElem?_mapIdx

/-- Sessions are raised to the same if each order is.  It is enough to look at one position at a
time. -/
theorem raised_eq {s t : Session} {amounts amounts' : Nat → Int} (name : s.name = t.name)
    (reserved : s.reserved = t.reserved)
    (orders : ∀ k, s.orders[k]?.map (Order.raise (amounts k)) =
      t.orders[k]?.map (Order.raise (amounts' k))) : s.raised amounts = t.raised amounts' := by
  have lists : (s.raised amounts).orders = (t.raised amounts').orders := by
    apply List.ext_getElem?
    intro k
    rw [getElem?_orders_raised, getElem?_orders_raised, orders]
  rw [raised, raised, Session.mk.injEq]
  exact ⟨name, lists, reserved⟩

theorem raised_zero (s : Session) : s.raised (fun _ => 0) = s := by
  have unraised : Order.raise 0 = id := funext Order.raise_zero
  have orders : s.orders.mapIdx (fun _ => Order.raise 0) = s.orders := by
    apply List.ext_getElem?
    intro k
    rw [List.getElem?_mapIdx, unraised, Option.map_id, id]
  rw [raised, orders]

/-- A ballot in front of others adds to the tally of its order, and to no other.  Raising twice is
raising by the sum, as long as nothing is taken away. -/
theorem raised_voted {ballot : Ballot} (first : 0 ≤ ballot.amount.toInt) {ballots : List Ballot}
    (others : ∀ b ∈ ballots, 0 ≤ b.amount.toInt) (s : Session) :
    (s.voted ballot).raised (s.tally ballots) = s.raised (s.tally (ballot :: ballots)) := by
  cases found : s.position? ballot.order with
  | none =>
      rw [voted_of_missing found]
      refine raised_eq rfl rfl fun k => ?_
      rw [tally_cons_of_other (by simp [found])]
  | some i =>
      rw [voted_of_found found]
      refine raised_eq rfl rfl fun k => ?_
      show (s.orders.modify i _)[k]?.map _ = _
      rw [List.getElem?_modify, Option.map_eq_map, Option.map_map]
      congr 1
      funext o
      rw [Function.comp_apply]
      by_cases here : i = k
      · subst here
        rw [tally_cons_of_found found, if_pos rfl,
          Order.raise_raise first (tally_nonneg others s i)]
      · rw [tally_cons_of_other (by simpa [found] using here), if_neg here]

/-- Ballots that take nothing away raise each order by its tally.  The induction is on the
ballots; that the bound is met early or late comes to the same. -/
theorem poll_eq {ballots : List Ballot} (nonneg : ∀ b ∈ ballots, 0 ≤ b.amount.toInt)
    (s : Session) : s.poll ballots = s.raised (s.tally ballots) := by
  induction ballots generalizing s with
  | nil => exact s.raised_zero.symm
  | cons ballot ballots ih =>
      obtain ⟨first, others⟩ := List.forall_mem_cons.mp nonneg
      -- The tally of the rest is taken behind the first ballot, where it is the same.
      have tallies : (s.voted ballot).tally ballots = s.tally ballots :=
        funext (s.tally_voted ballot ballots)
      show (s.voted ballot).poll ballots = _
      rw [ih others, tallies, raised_voted first others]

/-- The session `left` is `s` but for the votes, of which each order has its own and the tally of
the ballots for it, up to the bound. -/
structure Tallied (s : Session) (ballots : List Ballot) (left : Session) : Prop where
  name : left.name = s.name
  reserved : left.reserved = s.reserved
  length : left.orders.length = s.orders.length
  orders : ∀ k o, s.orders[k]? = some o → ∃ o', left.orders[k]? = some o' ∧
    o'.pizza = o.pizza ∧ o'.name = o.name ∧
    o'.votes.toInt = min 2147483647 (o.votes.toInt + s.tally ballots k)

/-- **Vote totals do not depend on the order of the votes.**  Behind ballots with amounts that
are not negative, each order has the votes that it had and the sum of the amounts whose specifier
refers to it in the first session, cut off at the bound.  Nothing else in the session has changed,
and the same ballots in another order leave the same session. -/
theorem poll_exact (s : Session) {ballots : List Ballot}
    (nonneg : ∀ b ∈ ballots, 0 ≤ b.amount.toInt) :
    s.Tallied ballots (s.poll ballots) ∧
      ∀ others : List Ballot, ballots.Perm others → s.poll others = s.poll ballots := by
  refine ⟨?_, ?_⟩
  · rw [poll_eq nonneg]
    refine ⟨rfl, rfl, List.length_mapIdx, ?_⟩
    intro k o there
    refine ⟨o.raise (s.tally ballots k), ?_, rfl, rfl, ?_⟩
    · rw [getElem?_orders_raised, there, Option.map_some]
    · exact Order.toInt_votes_raise (tally_nonneg nonneg s k) o
  · intro others perm
    have nonneg' : ∀ b ∈ others, 0 ≤ b.amount.toInt := by
      intro b mem
      exact nonneg b (perm.mem_iff.mpr mem)
    have tallies : s.tally others = s.tally ballots := funext (tally_perm perm.symm s)
    rw [poll_eq nonneg', poll_eq nonneg, tallies]

-- Where votes are taken back, it matters whether the bound was reached before.
example :
    let s : Session := ⟨"", [⟨.standard, 2147483647, ""⟩], 30⟩
    s.poll [⟨.index 1, 1⟩, ⟨.index 1, -1⟩] ≠ s.poll [⟨.index 1, -1⟩, ⟨.index 1, 1⟩] := by
  decide

/-- Three specifiers for one order, a number for no order, and more votes than there is room
for, in two orders. -/
theorem poll_exact_at_bound :
    ∃ (s : Session) (ballots others : List Ballot),
      s.orders = [⟨.standard, -5, "a"⟩, ⟨.standard, 1, "b"⟩] ∧
      ballots = [⟨.name "a", 2147483647⟩, ⟨.index 3, 7⟩, ⟨.replica .standard, 2⟩, ⟨.index 1, 9⟩,
        ⟨.name "b", 4⟩] ∧
      others = [⟨.index 1, 9⟩, ⟨.name "a", 2147483647⟩, ⟨.name "b", 4⟩, ⟨.index 3, 7⟩,
        ⟨.replica .standard, 2⟩] ∧
      (∀ b ∈ ballots, 0 ≤ b.amount.toInt) ∧ ballots.Perm others ∧
      s.tally ballots 0 = 2147483658 ∧
      (s.poll ballots).orders = [⟨.standard, 2147483647, "a"⟩, ⟨.standard, 5, "b"⟩] ∧
      s.Tallied ballots (s.poll ballots) ∧ s.poll others = s.poll ballots := by
  refine ⟨⟨"", [⟨.standard, -5, "a"⟩, ⟨.standard, 1, "b"⟩], 30⟩, _, _, rfl, rfl, rfl,
    ?nonneg, ?perm, rfl, rfl, (poll_exact _ ?nonneg).1, (poll_exact _ ?nonneg).2 _ ?perm⟩
  · decide
  · decide

end Session

end Pizzeria
