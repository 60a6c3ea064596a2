import Pizzeria.Proofs.Forms
import Pizzeria.Proofs.Reading

/-!
# The same lexemes at other places

Decoding a lexeme and building statements carry locations along and report them, but
never look at them.  So the outcome for lexemes at other places is the outcome for the
same lexemes, with every location in it moved along.  Only cutting the lexemes depends
on where the text begins; that is a matter of each way to move a text.

## Main Definitions

* `Diagnostic.relocated`, `Lexeme.relocated`, `Token.relocated` — the same thing at
  another place.
* `Diagnostic.relocateOutcome` — an outcome, with what it reports or carries moved.

## Main Results

* `Lexeme.decode_relocated`, `Grammar.statement_relocated`,
  `Program.ofTokens_relocated` — each step treats relocated input alike.
* `Program.ofLexemes_relocated` — so do the steps together.
-/

namespace Pizzeria

/-! ### Relocated data -/

/-- The same diagnostic at another place. -/
def Diagnostic.relocated (move : Location → Location) (d : Diagnostic) : Diagnostic :=
  { d with location := move d.location }

/-- The same lexeme at another place. -/
def Lexeme.relocated (move : Location → Location) (x : Lexeme) : Lexeme :=
  { x with location := move x.location }

/-- The same token at another place. -/
def Token.relocated (move : Location → Location) (t : Token) : Token :=
  { t with location := move t.location }

namespace Diagnostic

universe u

variable {α β γ δ : Type u}

/-- The outcome of the same work at other places, where `f` moves the answer. -/
def relocateOutcome (move : Location → Location) (f : α → β) :
    Except Diagnostic α → Except Diagnostic β
  | .ok a => .ok (f a)
  | .error d => .error (d.relocated move)

/-- Work that is done step by step is moved step by step.  Each stage of reading only has to be
looked at by itself. -/
theorem relocateOutcome_bind {move : Location → Location} {f : α → β} {g : γ → δ}
    {k : α → Except Diagnostic γ} {k' : β → Except Diagnostic δ}
    (step : ∀ a, k' (f a) = relocateOutcome move g (k a)) (x : Except Diagnostic α) :
    relocateOutcome move f x >>= k' = relocateOutcome move g (x >>= k) := by
  cases x with
  | error d => rfl
  | ok a => exact step a

/-- Work on a list is moved member by member; the first refusal is that of the same member. -/
theorem relocateOutcome_mapM {move : Location → Location} {f : α → β} {g : γ → δ}
    {k : α → Except Diagnostic γ} {k' : β → Except Diagnostic δ} {as : List α}
    (step : ∀ a ∈ as, k' (f a) = relocateOutcome move g (k a)) :
    (as.map f).mapM k' = relocateOutcome move (List.map g) (as.mapM k) := by
  induction as with
  | nil => rfl
  | cons a as ih =>
      rw [List.map_cons, List.mapM_cons, List.mapM_cons, step a List.mem_cons_self,
        ih fun b mem => step b (List.mem_cons_of_mem a mem)]
      cases k a with
      | error d => rfl
      | ok c => cases as.mapM k <;> rfl

end Diagnostic

open Diagnostic

variable (move : Location → Location)

/-! ### Tokens -/

namespace Lexeme

/-- What a lexeme means does not depend on where it stands, and a refusal moves with it. -/
theorem value_relocated (x : Lexeme) :
    (x.relocated move).value = relocateOutcome move id x.value := by
  rcases x with ⟨kind, place, text⟩
  show (⟨kind, move place, text⟩ : Lexeme).value = _
  cases kind with
  | delimiter => rfl
  | string =>
      simp only [value]
      by_cases ascii : text.interior.all isAscii = true
      · rw [if_pos ascii, if_pos ascii]
        rfl
      · rw [if_neg ascii, if_neg ascii]
        rfl
  | _ =>
      simp only [value]
      split <;> rfl

/-- A lexeme is decoded alike at another place.  The token stands where the lexeme does. -/
theorem decode_relocated (x : Lexeme) :
    (x.relocated move).decode = relocateOutcome move (Token.relocated move) x.decode := by
  unfold decode
  rw [value_relocated]
  cases x.value <;> rfl

end Lexeme

namespace Token

theorem ofLexemes_relocated (xs : List Lexeme) :
    ofLexemes (xs.map (Lexeme.relocated move)) =
      relocateOutcome move (List.map (Token.relocated move)) (ofLexemes xs) := by
  apply relocateOutcome_mapM
  intro x _
  exact x.decode_relocated move

/-- The values of tokens have no places, so the rules cannot tell tokens that were moved. -/
theorem map_value_relocated (ts : List Token) :
    (ts.map (Token.relocated move)).map Token.value = ts.map Token.value := by
  rw [List.map_map]
  rfl

end Token

/-! ### Programs -/

namespace Grammar

/-- A statement that no rule accepts is reported at its first token, and moves with it.  Without
tokens there would be nothing to move with. -/
theorem invalidStatement_relocated {ts : List Token} (nonempty : ts ≠ []) :
    invalidStatement (ts.map (Token.relocated move)) =
      (invalidStatement ts).relocated move := by
  obtain ⟨t, ts, rfl⟩ := List.exists_cons_of_ne_nil nonempty
  simp [invalidStatement, Diagnostic.relocated, Token.relocated]

/-- A statement that is not empty is read alike at another place.  An empty one would
be reported at the start of the text, wherever it stands. -/
theorem statement_relocated {ts : List Token} (nonempty : ts ≠ []) :
    spl1.statement (ts.map (Token.relocated move)) =
      relocateOutcome move id (spl1.statement ts) := by
  cases outcome : spl1.statement ts with
  | ok s =>
      refine statement_eq_ok_iff.mpr ?_
      rw [Token.map_value_relocated]
      exact statement_eq_ok_iff.mp outcome
  | error d =>
      refine statement_eq_error_iff.mpr ?_
      rw [Token.map_value_relocated]
      rcases statement_eq_error_iff.mp outcome with
        ⟨t, expected, e, found, value, misfit, rfl⟩ | ⟨unfit, rfl⟩
      · refine Or.inl ⟨t.relocated move, expected, e, ?_, value, misfit, rfl⟩
        rw [List.getElem?_map, found]
        rfl
      · exact Or.inr ⟨unfit, (invalidStatement_relocated move nonempty).symm⟩

end Grammar

namespace Program

theorem filter_map_relocated (closed : List (List Token)) :
    (closed.map (List.map (Token.relocated move))).filter (fun segment => !segment.isEmpty) =
      (closed.filter fun segment => !segment.isEmpty).map (List.map (Token.relocated move)) := by
  rw [List.filter_map]
  congr 2
  funext segment
  cases segment <;> rfl

/-- A program is built alike from tokens at other places.  Delimiters stay delimiters, so the
statements are the same. -/
theorem ofTokens_relocated (ts : List Token) :
    ofTokens Grammar.spl1 (ts.map (Token.relocated move)) =
      relocateOutcome move id (ofTokens Grammar.spl1 ts) := by
  have split := segments_map (f := Token.relocated move) (fun _ => rfl) ts
  cases rest : (segments ts).2 with
  | cons t rest' =>
      rw [ofTokens_of_open rest, ofTokens_of_open (by rw [split, rest]; rfl)]
      rfl
  | nil =>
      rw [ofTokens_of_closed rest, ofTokens_of_closed (by rw [split, rest]; rfl), split,
        filter_map_relocated]
      have built : ∀ segment ∈ (segments ts).1.filter fun segment => !segment.isEmpty,
          Grammar.spl1.statement (segment.map (Token.relocated move)) =
            relocateOutcome move id (Grammar.spl1.statement segment) := by
        intro segment mem
        apply Grammar.statement_relocated
        simpa using (List.mem_filter.mp mem).2
      have moved := relocateOutcome_mapM built
      rwa [List.map_id_fun] at moved

/-- The program that lexemes mean. -/
def ofLexemes (g : Grammar) (xs : List Lexeme) : Except Diagnostic Program := do
  let ts ← Token.ofLexemes xs
  ofTokens g ts

/-- A program is read alike from lexemes at other places.  Any move will do: nothing ever compares
two locations. -/
theorem ofLexemes_relocated (xs : List Lexeme) :
    ofLexemes Grammar.spl1 (xs.map (Lexeme.relocated move)) =
      relocateOutcome move id (ofLexemes Grammar.spl1 xs) := by
  unfold ofLexemes
  rw [Token.ofLexemes_relocated]
  apply relocateOutcome_bind
  intro ts
  exact ofTokens_relocated move ts

end Program

end Pizzeria
