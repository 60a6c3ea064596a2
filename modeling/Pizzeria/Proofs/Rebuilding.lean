import Mathlib.Algebra.Group.Nat.Defs
import Pizzeria.Proofs.SoundSessions

/-!
# Rebuilding a session

Any session that runs have led to can be written down as a text and be had again from it.
The script of a session places its orders one after the other and gives each its votes at
once.  While order number `n + 1` gets its votes there are `n + 1` orders, so its number
refers to it; it stands at zero votes, so no vote is lost at a bound.  That the script can
be read back is a matter of the session being sound.

## Main Results

* `Session.change_orderStatements` — placing an order and voting for it adds the order.
* `Session.change_program` — the program of a session makes the session.
* `State.run_script` — the script of a session that runs have led to rebuilds it.
-/

namespace Pizzeria

/-- A new order takes any number of votes as it is.  It has none to begin with, so no bound is
met. -/
theorem Order.addVotes_place (pizza : Pizza) (name : Text) (votes : Int32) :
    (place pizza name).addVotes votes = ⟨pizza, votes, name⟩ := by
  have unclamped : Int32.ofIntClamp ((0 : Int32).toInt + votes.toInt) = votes := by
    rw [Int32.toInt_zero, Int.zero_add, Int32.ofIntClamp_toInt]
  rw [addVotes, place, unclamped]

namespace Session

/-- The number of an order, counted from one, refers to it, whatever other orders are called. -/
theorem position?_index {s : Session} (few : s.orders.length < 2 ^ 31) {i : Nat}
    (within : i < s.orders.length) :
    s.position? (.index (Int32.ofNat (i + 1))) = some i := by
  have number := Int32.toInt_ofNat_of_lt (show i + 1 < 2 ^ 31 by omega)
  rw [position?, number, if_pos]
  · rfl
  · omega

/-- The number behind that of the last order refers to the order that is added next.  The script
can name an order by its number for that reason, even one without a name. -/
theorem position?_add {s : Session} (few : s.orders.length + 1 < 2 ^ 31) (o : Order) :
    (s.add o).position? (.index (Int32.ofNat (s.orders.length + 1))) =
      some s.orders.length := by
  have length : (s.add o).orders.length = s.orders.length + 1 := List.length_append
  apply position?_index
  · omega
  · omega

theorem modify_add (s : Session) (o : Order) (change : Order → Order) :
    (s.add o).modify s.orders.length change = s.add (change o) := by
  have last : (s.orders ++ [o]).modify s.orders.length change = s.orders ++ [change o] := by
    induction s.orders with
    | nil => rfl
    | cons other others ih => exact congrArg (other :: ·) ih
  rw [modify, add, last, add]

/-- Placing an order and voting for it under the next number adds the order, with its name and its
votes.  The vote is cast even if it is for none. -/
theorem change_orderStatements {s : Session} (few : s.orders.length + 1 < 2 ^ 31) (o : Order) :
    Program.change (orderStatements (s.orders.length + 1) o) (some s) = .ok (some (s.add o)) := by
  have voted : (s.add (.place o.pizza o.name)).vote?
      (.index (Int32.ofNat (s.orders.length + 1))) o.votes = some (s.add o) := by
    rw [vote?, position?_add few, Option.map_some, modify_add, Order.addVotes_place]
  show Statement.changeOpen (s.add (.place o.pizza o.name))
    (.votePizza (.index (Int32.ofNat (s.orders.length + 1))) o.votes) >>= pure = _
  rw [bind_pure, Statement.changeOpen, voted]
  rfl

/-- The statements that place orders add them behind those that are there.  The induction counts
the numbers along. -/
theorem change_placements (orders : List Order) {s : Session}
    (few : s.orders.length + orders.length < 2 ^ 31) :
    Program.change (placements (s.orders.length + 1) orders) (some s) =
      .ok (some { s with orders := s.orders ++ orders }) := by
  induction orders generalizing s with
  | nil =>
      rw [List.append_nil]
      rfl
  -- The first order makes the session longer by one, so the next number is again the one
  -- behind its length.
  | cons o others ih =>
      rw [List.length_cons] at few
      have length : (s.add o).orders.length = s.orders.length + 1 := List.length_append
      have rest := ih (s := s.add o) (by omega)
      rw [length] at rest
      rw [placements, Program.change, List.foldlM_append]
      show Program.change _ _ >>= _ = _
      rw [change_orderStatements (by omega)]
      show Program.change _ _ = _
      rw [rest, add, List.append_assoc]
      rfl

/-- The program of a session makes the session from nothing: it is opened under its name, and its
orders are placed one by one. -/
theorem change_program {s : Session} (few : s.orders.length < 2 ^ 31) :
    s.program.change none = .ok (some s) := by
  have opened : (start s.name s.reserved).orders.length + s.orders.length < 2 ^ 31 := by
    rwa [start, List.length_nil, Nat.zero_add]
  exact change_placements s.orders opened

theorem wellFormed_placements {orders : List Order} (sound : ∀ o ∈ orders, o.Sound)
    (number : Nat) : Program.WellFormed (placements number orders) := by
  induction orders generalizing number with
  | nil => exact fun _ mem => absurd mem List.not_mem_nil
  | cons o others ih =>
      intro statement mem
      rcases List.mem_append.mp mem with mem | mem
      · have first := sound o List.mem_cons_self
        rcases List.mem_pair.mp mem with rfl | rfl
        · exact ⟨first.distinct, first.name⟩
        · trivial
      · refine ih ?_ (number + 1) statement mem
        intro other among
        exact sound other (List.mem_cons_of_mem o among)

/-- Everything that a sound session consists of can be written.  Sessions that came from texts are
sound, so nothing that was read is lost. -/
theorem Sound.wellFormed_program {s : Session} (sound : s.Sound) : s.program.WellFormed := by
  intro statement mem
  rcases List.mem_cons.mp mem with rfl | mem
  · exact ⟨sound.name, sound.reserved⟩
  · exact wellFormed_placements sound.orders 1 statement mem

/-- The script of a sound session means the program of the session.  This joins what is written to
what is done. -/
theorem Sound.ofSource_script {s : Session} (sound : s.Sound) (v : Grammar.Version) :
    Program.ofSource v.grammar s.script = .ok s.program := by
  rw [Grammar.Version.grammar_eq]
  exact Program.ofSource_of_ofSourceFrom
    (Program.ofSourceFrom_render sound.wellFormed_program .start)

end Session

namespace State

/-- Whatever texts have been run: the script of the session that is open, run from
nothing, is finished and leaves an equal session. -/
theorem run_script (settings : Settings) (runs : List (Grammar.Version × Text)) {s : Session}
    (active : ((fresh settings).afterRuns runs).session = some s)
    (few : s.orders.length < 2 ^ 31) (v : Grammar.Version) (others : Settings) :
    ∃ s', (fresh others).run v.grammar s.script = .ok (.finished, s') ∧ s'.session = some s := by
  have sound := openSound_afterRuns settings runs s active
  exact run_of_change (sound.ofSource_script v) (Session.change_program few)

/-- A session named like a comment, and an order with all the votes that it can have. -/
theorem run_script_at_bound :
    ∃ s : Session,
      ((fresh {}).afterRuns
        [(.spl1, "START SESSION AS \"# 1;\"; ADD PIZZA [{HAM}];"),
          (.spl2, "VOTE FOR PIZZA (1) (2147483647); VOTE FOR PIZZA (1); QUIT;")]).session = some s ∧
      s.script =
        "START SESSION AS \"# 1;\";\n" ++
        "ADD PIZZA [{CRUST:STANDARD},{SAUCE:TOMATO},{CHEESE:MOZZARELLA},{ALL:HAM}] AS \"\";\n" ++
        "VOTE FOR PIZZA (1) (2147483647);\n" ∧
      ∃ s', (fresh {}).run Grammar.spl2 s.script = .ok (.finished, s') ∧ s'.session = some s := by
  refine ⟨⟨"# 1;", [⟨{ Pizza.standard with toppings := [⟨.whole, .ham⟩] }, 2147483647, ""⟩], 30⟩,
    ?active, ?_, run_script {} _ ?active (by decide) .spl2 {}⟩
  · decide +kernel
  · decide +kernel

end State

end Pizzeria
