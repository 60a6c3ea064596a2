import Pizzeria.Grammar.Standard
import Pizzeria.Program
import Pizzeria.Proofs.Outcome

/-!
# Adding rules to a grammar

A grammar grows at its end: a rule that is added is tried behind those that were there
before.  So a rule that used to decide over tokens still does, whatever the added rules
accept, and only tokens that no rule used to accept can come to mean something new.  Such
tokens stop the reading of a program at their statement.  All that was read, or refused,
up to any other end is read or refused in the same way.

## Main Definitions

* `Grammar.Extends` — rules have been added to a grammar.
* `Grammar.Kept` — one outcome is the same as another, unless this reports tokens that the
  grammar has no rule for.

## Main Results

* `Grammar.Extends.find?_eq_some` — a rule that decides still does so with more rules.
* `Program.ofSource_kept` — the outcome of reading is kept.
-/

namespace Pizzeria

namespace Grammar

/-- The second grammar is made from the first one by adding rules, any number of them. -/
inductive Extends (g : Grammar) : Grammar → Prop where
  | refl : Extends g g
  | add {g' : Grammar} (extension : Extends g g') (signature : Signature)
      (build : List Token → Except Diagnostic Statement) : Extends g (g'.add signature build)

namespace Extends

variable {g g' : Grammar} (extension : g.Extends g')

include extension

/-- What has been added stands behind what was there, so the old rules are tried first. -/
theorem exists_rules_eq : ∃ added, g'.rules = g.rules ++ added := by
  induction extension with
  | refl => exact ⟨[], (List.append_nil g.rules).symm⟩
  | @add g'' _ signature build ih =>
      obtain ⟨added, split⟩ := ih
      refine ⟨added ++ [⟨signature, build⟩], ?_⟩
      rw [Grammar.add, split, List.append_assoc]

/-- A rule that decides over tokens still does so with more rules, since these are tried only if
no old one accepts. -/
theorem find?_eq_some {ts : List Token} {rule : Rule} (found : g.find? ts = some rule) :
    g'.find? ts = some rule := by
  obtain ⟨added, split⟩ := extension.exists_rules_eq
  rw [find?] at found ⊢
  rw [split, List.find?_append, found]
  rfl

end Extends

/-! ### Outcomes that are kept -/

/-- The outcome reports tokens that the grammar has no rule for. -/
def Unmatched (g : Grammar) {α : Type} (x : Except Diagnostic α) : Prop :=
  ∃ ts, g.accepts ts = false ∧ x = .error (invalidStatement ts)

/-- The second outcome is the first one, unless this reports tokens that the grammar has
no rule for. -/
def Kept (g : Grammar) {α : Type} (x y : Except Diagnostic α) : Prop := y = x ∨ g.Unmatched x

namespace Kept

variable {g : Grammar} {α β : Type}

theorem refl (x : Except Diagnostic α) : g.Kept x x := Or.inl rfl

/-- Work that is done in steps is kept if each step is: a report of the first step is the
report of the whole. -/
theorem bind {x y : Except Diagnostic α} {f f' : α → Except Diagnostic β} (first : g.Kept x y)
    (next : ∀ a, g.Kept (f a) (f' a)) : g.Kept (x >>= f) (y >>= f') := by
  rcases first with rfl | ⟨ts, unknown, rfl⟩
  · cases y with
    | error d => exact .refl _
    | ok a => exact next a
  · exact Or.inr ⟨ts, unknown, rfl⟩

/-- Work on the members of a list is kept if it is for each of them.  A member that was refused
for want of a rule may now go through, and then the list is open again. -/
theorem mapM {f f' : α → Except Diagnostic β} (each : ∀ a, g.Kept (f a) (f' a)) (as : List α) :
    g.Kept (as.mapM f) (as.mapM f') := by
  induction as with
  | nil => exact .refl _
  | cons a as ih =>
      rw [List.mapM_cons, List.mapM_cons]
      refine (each a).bind fun b => ?_
      exact ih.bind fun bs => .refl _

theorem eq_ok {x y : Except Diagnostic α} (kept : g.Kept x y) {a : α} (accepted : x = .ok a) :
    y = .ok a := by
  rcases kept with rfl | ⟨ts, -, report⟩
  · exact accepted
  · cases accepted.symm.trans report

/-- The report of tokens without a rule has a kind of its own.  So a refusal of any other kind is
kept by every extension. -/
theorem eq_error {x y : Except Diagnostic α} (kept : g.Kept x y) {d : Diagnostic}
    (refused : x = .error d) (other : d.kind ≠ .invalidStatement) : y = .error d := by
  rcases kept with rfl | ⟨ts, -, report⟩
  · exact refused
  · cases refused.symm.trans report
    exact absurd rfl other

end Kept

/-- What a statement is read as is kept: with a rule for it, the same rule decides.  Without one,
a new rule may. -/
theorem Extends.statement_kept {g g' : Grammar} (extension : g.Extends g') (ts : List Token) :
    g.Kept (g.statement ts) (g'.statement ts) := by
  cases found : g.find? ts with
  | some rule =>
      left
      rw [statement, statement, build?, build?, found, extension.find?_eq_some found]
  | none =>
      right
      refine ⟨ts, ?_, ?_⟩
      · rw [accepts, found]
        rfl
      · rw [statement, build?, found]
        rfl

end Grammar

/-! ### Reading programs -/

namespace Program

open Grammar

variable {g g' : Grammar} (extension : g.Extends g')

include extension

/-- The tokens are split in the same way, since delimiters are no matter of the grammar.  Each
statement is kept by itself. -/
theorem ofTokens_kept (ts : List Token) : g.Kept (ofTokens g ts) (ofTokens g' ts) := by
  unfold ofTokens
  split
  · exact .refl _
  · exact .mapM extension.statement_kept _

/-- Everything in front of the grammar is the same for both, so what a source text comes to is
kept as its tokens are. -/
theorem ofSource_kept (source : Text) : g.Kept (ofSource g source) (ofSource g' source) := by
  unfold ofSource
  split
  · exact .refl _
  · refine (Kept.refl (uncomment (closeLine source))).bind fun code => ?_
    exact (Kept.refl (Token.ofText code)).bind fun ts => ofTokens_kept extension ts

omit extension

/-- **Adding rules is conservative.**  Whatever rules are added to a grammar, and whatever
these accept and build: a source text that means a program means the same program, and a
source text that is refused for another reason than an invalid statement is refused for the
same reason. -/
theorem ofSource_of_extends {g g' : Grammar} (extension : g.Extends g') (source : Text) :
    (∀ program, ofSource g source = .ok program → ofSource g' source = .ok program) ∧
      ∀ d, ofSource g source = .error d → d.kind ≠ .invalidStatement →
        ofSource g' source = .error d := by
  have kept := ofSource_kept extension source
  refine ⟨?_, ?_⟩
  · intro program accepted
    exact kept.eq_ok accepted
  · intro d refused other
    exact kept.eq_error refused other

/-- Version 1 with two rules more, each for tokens that a rule of version 1 accepts. -/
def overgrown : Grammar :=
  (Grammar.spl1.add [.word .QUIT] fun _ => .ok .endSession).add (alterSignature .SET .CRUST)
    fun _ => .ok .quit

theorem ofSource_of_extends_overgrown :
    Grammar.spl1.Extends overgrown ∧
      (ofSource Grammar.spl1 "QUIT;" = .ok [.quit] ∧ ofSource overgrown "QUIT;" = .ok [.quit]) ∧
      ∃ d : Diagnostic,
        ofSource Grammar.spl1 "QUIT; ALTER PIZZA (1) SET CRUST {HAM};" = .error d ∧
        d.kind = .wrongComponent ∧
        ofSource overgrown "QUIT; ALTER PIZZA (1) SET CRUST {HAM};" = .error d := by
  have extension : Grammar.spl1.Extends overgrown := .add (.add .refl _ _) _ _
  have quits : ofSource Grammar.spl1 "QUIT;" = .ok [.quit] := by decide +kernel
  refine ⟨extension, ⟨quits, (ofSource_of_extends extension _).1 _ quits⟩, ?_⟩
  refine ⟨⟨.wrongComponent, .parsing, ⟨1, 33⟩, some "{HAM}",
    "Expected a crust, found a topping arrangement"⟩, ?refused, rfl, ?_⟩
  · decide +kernel
  · exact (ofSource_of_extends extension _).2 _ ?refused (by decide)

end Program

end Pizzeria
