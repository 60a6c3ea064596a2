import Mathlib.Data.List.Nodup
import Pizzeria.Proofs.Transition
import Pizzeria.Proofs.WrittenForm

/-!
# Sound sessions

What holds of the session at any time, whatever texts have been run and however these
runs ended.  Two statements bring a pizza into a session: one that places an order, and
its pizza comes from a literal, and one that adds an arrangement to an order, which looks
for the arrangement first.  Names come from string literals, and the room of a session is
never stated.  All other statements only move, drop or renumber what is there.

## Main Definitions

* `Order.Sound`, `Session.Sound` — no arrangement twice, names that can be quoted, and
  the usual room.

## Main Results

* `Statement.keeps_sound` — well-formed statements lead from sound sessions to sound
  sessions.
* `State.sound_of_afterRuns` — the session behind any runs is sound.
-/

namespace Pizzeria

/-- No arrangement is on the pizza twice, and the name can stand between quotes. -/
structure Order.Sound (o : Order) : Prop where
  distinct : o.pizza.toppings.Nodup
  name : o.name.Quotable

/-- Name and orders are sound, and the room set aside is what every session gets. -/
structure Session.Sound (s : Session) : Prop where
  name : s.name.Quotable
  reserved : s.reserved = 30
  orders : ∀ o ∈ s.orders, o.Sound

/-- An alteration never puts an arrangement on a pizza twice.  Adding one that is there is
refused, and nothing else adds any. -/
theorem Pizza.nodup_of_alter {p q : Pizza} {alteration : Alteration}
    (altered : p.alter alteration = .ok q) (distinct : p.toppings.Nodup) : q.toppings.Nodup := by
  cases alteration with
  | addTopping a =>
      rw [alter] at altered
      split at altered
      · cases altered
      · rename_i absent
        cases altered
        rw [has, List.contains_iff_mem] at absent
        show (p.toppings ++ [a]).Nodup
        rw [← List.concat_eq_append]
        exact distinct.concat absent
  | removeTopping a =>
      cases altered
      exact distinct.filter _
  | setCrust _ | setSauce _ | setCheese _ =>
      cases altered
      exact distinct

/-! ### Changes to a session -/

namespace Session

/-- A session that is opened by a statement that was read is sound: it has no orders, and its name
could be written in a string. -/
theorem sound_start {name : Text} {reserved : Nat}
    (wellFormed : (Statement.startSession name reserved).WellFormed) :
    (start name reserved).Sound :=
  ⟨wellFormed.1, wellFormed.2, fun _ mem => absurd mem List.not_mem_nil⟩

namespace Sound

variable {s : Session} (sound : s.Sound)

include sound

theorem rename {name : Text} (quotable : name.Quotable) : (s.rename name).Sound :=
  ⟨quotable, sound.reserved, sound.orders⟩

/-- Other orders are as good as the present ones, if they are sound.  Everything below changes a
session only by its orders, or only by its name. -/
theorem withOrders {orders : List Order} (all : ∀ o ∈ orders, o.Sound) :
    ({ s with orders } : Session).Sound :=
  ⟨sound.name, sound.reserved, all⟩

theorem add {o : Order} (placed : o.Sound) : (s.add o).Sound := by
  apply sound.withOrders
  intro other mem
  rcases List.mem_append.mp mem with mem | mem
  · exact sound.orders other mem
  · rwa [List.mem_singleton.mp mem]

/-- Changing an order keeps a session sound if the change keeps every order sound.  Where there is
no order at the position, nothing is changed. -/
theorem modify {change : Order → Order} (keeps : ∀ o, o.Sound → (change o).Sound) (i : Nat) :
    (s.modify i change).Sound := by
  apply sound.withOrders
  intro o mem
  obtain ⟨j, there⟩ := List.mem_iff_getElem?.mp mem
  rw [List.getElem?_modify] at there
  obtain ⟨before, among, rfl⟩ := Option.map_eq_some_iff.mp there
  have kept := sound.orders before (List.mem_of_getElem? among)
  split
  · exact keeps before kept
  · exact kept

/-- Removing takes orders away and touches none, so what is left is sound. -/
theorem remove {order : Specifier} {removed : Order × Session}
    (found : s.remove? order = some removed) : removed.2.Sound := by
  obtain ⟨i, -, found⟩ := Option.bind_eq_some_iff.mp found
  obtain ⟨o, -, found⟩ := Option.bind_eq_some_iff.mp found
  cases found
  apply sound.withOrders
  intro other mem
  exact sound.orders other (List.mem_of_mem_eraseIdx mem)

/-- Being sound does not look at votes, so an order with more or fewer of them is as sound as
before. -/
theorem vote {order : Specifier} {votes : Int32} {voted : Session}
    (found : s.vote? order votes = some voted) : voted.Sound := by
  obtain ⟨i, -, rfl⟩ := Option.map_eq_some_iff.mp found
  apply sound.modify
  intro o kept
  exact ⟨kept.distinct, kept.name⟩

/-- The altered pizza goes back to the order that it was taken from.  It has each arrangement
once, since the pizza that was altered had. -/
theorem alter {order : Specifier} {alteration : Alteration} {altered : Session}
    (found : s.alter order alteration = .ok altered) : altered.Sound := by
  rw [Session.alter] at found
  split at found
  · cases found
  · split at found
    · cases found
    · rename_i i _ o there
      obtain ⟨pizza, alters, rfl⟩ := Except.map_eq_ok_iff.mp found
      have distinct := (sound.orders o (List.mem_of_getElem? there)).distinct
      apply sound.modify
      intro other kept
      exact ⟨Pizza.nodup_of_alter alters distinct, kept.name⟩

theorem resetVotes : s.resetVotes.Sound := by
  apply sound.withOrders
  intro o mem
  obtain ⟨before, among, rfl⟩ := List.mem_map.mp mem
  have kept := sound.orders before among
  exact ⟨kept.distinct, kept.name⟩

theorem reset : s.reset.Sound :=
  sound.withOrders fun _ mem => absurd mem List.not_mem_nil

end Sound

/-- The open session, if there is one, is sound. -/
def OpenSound (session : Option Session) : Prop := ∀ s ∈ session, s.Sound

theorem openSound_none : OpenSound none := fun _ active => by cases active

theorem openSound_some {s : Session} (sound : s.Sound) : OpenSound (some s) := by
  rintro _ ⟨⟩
  exact sound

end Session

/-! ### Statements and runs -/

namespace Statement

open Session

/-- Without a session, starting one is the only statement that leads to one. -/
theorem openSound_of_changeNone {statement : Statement} (wellFormed : statement.WellFormed)
    {next : Option Session} (changes : statement.changeNone = .ok next) : OpenSound next := by
  cases statement with
  | startSession name reserved =>
      cases changes
      exact openSound_some (sound_start wellFormed)
  | nameSession _ | saveSession _ | loadSession _ | quit =>
      cases changes
      exact openSound_none
  | _ => cases changes

/-- With a session, each statement that changes it does so by one of the operations above.  The
cases are those of the definition, in its order. -/
theorem openSound_of_changeOpen {statement : Statement} (wellFormed : statement.WellFormed)
    {s : Session} (sound : s.Sound) {next : Option Session}
    (changes : statement.changeOpen s = .ok next) : OpenSound next := by
  cases statement with
  | startSession _ _ => cases changes
  | endSession =>
      cases changes
      exact openSound_none
  | nameSession name =>
      cases changes
      exact openSound_some (sound.rename wellFormed)
  | addPizza pizza name =>
      cases changes
      exact openSound_some (sound.add ⟨wellFormed.1, wellFormed.2⟩)
  | removePizza order =>
      obtain ⟨removed, found, ⟨⟩⟩ := Except.elim_eq_ok_iff.mp changes
      exact openSound_some (sound.remove found)
  | viewPizza order details =>
      cases order with
      | none =>
          cases changes
          exact openSound_some sound
      | some order =>
          obtain ⟨o, -, ⟨⟩⟩ := Except.elim_eq_ok_iff.mp changes
          exact openSound_some sound
  | alterPizza order alteration =>
      obtain ⟨altered, found, rfl⟩ := Except.map_eq_ok_iff.mp changes
      exact openSound_some (sound.alter found)
  | votePizza order votes =>
      obtain ⟨voted, found, ⟨⟩⟩ := Except.elim_eq_ok_iff.mp changes
      exact openSound_some (sound.vote found)
  | selectTop count =>
      rw [changeOpen] at changes
      split at changes
      · cases changes
      · cases changes
        exact openSound_some sound
  | resetVotes =>
      cases changes
      exact openSound_some sound.resetVotes
  | resetSession =>
      cases changes
      exact openSound_some sound.reset
  | saveSession _ | loadSession _ | quit =>
      cases changes
      exact openSound_some sound

/-- Well-formed statements lead from sound sessions to sound sessions.  This is the step that all
runs are made of. -/
theorem keeps_sound {statement : Statement} (wellFormed : statement.WellFormed) :
    statement.Keeps OpenSound := by
  intro session next before changes
  cases session with
  | none => exact openSound_of_changeNone wellFormed changes
  | some s => exact openSound_of_changeOpen wellFormed (before s rfl) changes

end Statement

/-- A program that is read in a version of the language is well-formed.  Without this, statements
could put into a session what no text can say. -/
theorem Program.wellFormed_of_ofSource {v : Grammar.Version} {source : Text} {program : Program}
    (read : ofSource v.grammar source = .ok program) : program.WellFormed := by
  rw [ofSource_eq, Grammar.Version.grammar_eq] at read
  exact wellFormed_of_ofSourceFrom read

namespace State

/-- Whatever texts are run one after the other, also if some are refused or halt, the session
stays sound. -/
theorem openSound_afterRuns (settings : Settings) (runs : List (Grammar.Version × Text)) :
    Session.OpenSound ((fresh settings).afterRuns runs).session := by
  refine session_afterRuns ?_ runs Session.openSound_none
  intro v source program read statement mem
  exact Statement.keeps_sound (Program.wellFormed_of_ofSource read statement mem)

/-- Whatever texts have been run, and whether they were refused, halted or finished: the
session that is open has no arrangement twice on a pizza, its name and the names of its
orders are ASCII without quotes, and it has the usual room. -/
theorem sound_of_afterRuns (settings : Settings) (runs : List (Grammar.Version × Text))
    {s : Session} (active : ((fresh settings).afterRuns runs).session = some s) : s.Sound :=
  openSound_afterRuns settings runs s active

/-- A run that halts because an arrangement is already there, a text that is refused for
the same reason, and a run that names the session as no comment or statement could. -/
theorem sound_of_afterRuns_after_halt :
    ∃ s : Session,
      ((fresh {}).afterRuns
        [(.spl1, "START SESSION; ADD PIZZA [{HAM}]; ALTER PIZZA (1) ADD TOPPING {HAM}; QUIT;"),
          (.spl11, "ADD PIZZA [{HAM},{HAM}];"),
          (.spl2, "NAME SESSION \"# QUIT;\";")]).session = some s ∧
      s = ⟨"# QUIT;", [⟨{ Pizza.standard with toppings := [⟨.whole, .ham⟩] }, 0, ""⟩], 30⟩ ∧
      s.Sound := by
  refine ⟨_, ?active, rfl, sound_of_afterRuns {} _ ?active⟩
  decide +kernel

end State

end Pizzeria
