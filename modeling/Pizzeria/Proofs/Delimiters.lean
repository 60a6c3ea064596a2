import Pizzeria.Proofs.Segments

/-!
# Statements between delimiters

What the tokens of a program are, said without splitting them: segments, each of them without a
delimiter and ended by one, and a rest without a delimiter.  Tokens are that in one way only.
A rest that is not empty refuses the tokens for its first one, whatever stands in front of it.
Else the segments are read one after the other, without the empty ones, and the first of them
that is no statement refuses them all.  Where one of two texts ends with a delimiter nothing of
it is left to the next, so the two are read apart.

## Main Definitions

* `Program.Splits` — tokens as segments and a rest.
* `Program.Meant`, `Program.FirstRefused` — the program that segments mean, and the refusal of
  the first of them that means no statement.
* `Program.Ended` — tokens that leave no statement open.

## Main Results

* `Program.splits_iff` — the segments and the rest of tokens are those that `segments` gives.
* `Program.Splits.ofTokens_eq_ok_iff`, `Program.Splits.ofTokens_eq_error_iff` — the outcome by
  the segments.
* `Program.Ended.ofTokens_append` — ended tokens in front of ended tokens.
-/

namespace Pizzeria.Program

/-! ### Segments and a rest -/

/-- The tokens are the segments, each ended by a delimiter, and behind them the rest. -/
inductive Splits : List Token → List (List Token) → List Token → Prop where
  | rest {rest : List Token} (inside : ∀ t ∈ rest, t.isDelimiter = false) : Splits rest [] rest
  | segment {segment ts rest : List Token} {d : Token} {others : List (List Token)}
      (inside : ∀ t ∈ segment, t.isDelimiter = false) (delimiter : d.isDelimiter = true)
      (tail : Splits ts others rest) : Splits (segment ++ d :: ts) (segment :: others) rest

/-- The segments that are not empty mean the statements of the program, in order. -/
def Meant (g : Grammar) (segments : List (List Token)) (program : Program) : Prop :=
  List.Forall₂ (fun segment s => g.statement segment = .ok s) (segments.filter (· ≠ [])) program

/-- Among the segments that are not empty, the first that means no statement is refused with the
diagnostic. -/
def FirstRefused (g : Grammar) (segments : List (List Token)) (d : Diagnostic) : Prop :=
  ∃ before segment behind, segments.filter (· ≠ []) = before ++ segment :: behind ∧
    (∀ earlier ∈ before, ∃ s, g.statement earlier = .ok s) ∧ g.statement segment = .error d

/-- There are no tokens, or the last one is a delimiter. -/
def Ended (ts : List Token) : Prop :=
  ts = [] ∨ ∃ front d, d.isDelimiter = true ∧ ts = front ++ [d]

/-- Tokens without a delimiter are a rest.  There is nothing to close them. -/
theorem segments_inside {rest : List Token} (inside : ∀ t ∈ rest, t.isDelimiter = false) :
    segments rest = ([], rest) := by
  induction rest with
  | nil => rfl
  | cons t rest ih =>
      have others := ih fun u mem => inside u (List.mem_cons_of_mem t mem)
      have first := inside t List.mem_cons_self
      rw [segments_of_open first (congrArg Prod.fst others), others]

theorem Splits.segments_eq {ts rest : List Token} {closed : List (List Token)}
    (splits : Splits ts closed rest) : segments ts = (closed, rest) := by
  induction splits with
  | rest inside => exact segments_inside inside
  | @segment segment ts rest d others inside delimiter _ ih =>
      have first := segments_segment inside delimiter
      rw [List.append_cons, segments_append (congrArg Prod.snd first), first, ih]
      rfl

/-- A token that is no delimiter joins the segment that it stands in front of, or the rest.  This
is the recursion of the splitting, read as a property of its result. -/
theorem splits_segments (ts : List Token) : Splits ts (segments ts).1 (segments ts).2 := by
  induction ts with
  | nil => exact .rest fun t mem => absurd mem List.not_mem_nil
  | cons t ts ih =>
      cases inside : t.isDelimiter with
      | true =>
          have split : Splits ([] ++ t :: ts) ([] :: (segments ts).1) (segments ts).2 :=
            .segment (fun u mem => absurd mem List.not_mem_nil) inside ih
          rwa [segments_of_delimiter inside]
      | false =>
          generalize found : segments ts = split at ih
          obtain ⟨closed, rest⟩ := split
          have closed' := congrArg Prod.fst found
          cases ih with
          | rest plain =>
              rw [segments_of_open inside closed', found]
              exact .rest (List.forall_mem_cons.mpr ⟨inside, plain⟩)
          | segment plain delimiter tail =>
              rw [segments_of_closed inside closed', found]
              exact .segment (List.forall_mem_cons.mpr ⟨inside, plain⟩) delimiter tail

/-- Tokens are segments and a rest in one way, and `segments` finds it.  So the splitting can be
spoken of without the function. -/
theorem splits_iff {ts rest : List Token} {closed : List (List Token)} :
    Splits ts closed rest ↔ segments ts = (closed, rest) := by
  constructor
  · exact Splits.segments_eq
  · intro found
    have splits := splits_segments ts
    rwa [found] at splits

/-- A delimiter behind tokens makes a segment of their rest, if only an empty one. -/
theorem Splits.concat {ts rest : List Token} {closed : List (List Token)}
    (splits : Splits ts closed rest) {d : Token} (delimiter : d.isDelimiter = true) :
    Splits (ts ++ [d]) (closed ++ [rest]) [] := by
  induction splits with
  | rest inside =>
      exact .segment inside delimiter (.rest fun t mem => absurd mem List.not_mem_nil)
  | segment inside delimiter' _ ih =>
      rw [List.append_assoc]
      exact .segment inside delimiter' ih

theorem Ended.rest_eq_nil {ts : List Token} (ended : Ended ts) : (segments ts).2 = [] := by
  rcases ended with rfl | ⟨front, d, delimiter, rfl⟩
  · rfl
  · have split := ((splits_segments front).concat delimiter).segments_eq
    rw [split]

/-! ### The outcome by the segments -/

/-- Without a rest, tokens mean what their segments do, one statement for each that is not
empty. -/
theorem Splits.ofTokens_eq {ts : List Token} {closed : List (List Token)}
    (splits : Splits ts closed []) (g : Grammar) :
    ofTokens g ts = (closed.filter (· ≠ [])).mapM g.statement := by
  have kept : (fun segment : List Token => !segment.isEmpty) = (decide <| · ≠ []) := by
    funext segment
    cases segment <;> rfl
  have split := splits.segments_eq
  rw [ofTokens_of_closed (congrArg Prod.snd split), split, kept]

/-- Tokens without a rest are a program exactly if each segment is a statement or empty. -/
theorem Splits.ofTokens_eq_ok_iff {ts : List Token} {closed : List (List Token)}
    (splits : Splits ts closed []) {g : Grammar} {program : Program} :
    ofTokens g ts = .ok program ↔ Meant g closed program := by
  rw [splits.ofTokens_eq]
  exact Except.mapM_eq_ok_iff

/-- They are refused exactly for the first segment that is refused. -/
theorem Splits.ofTokens_eq_error_iff {ts : List Token} {closed : List (List Token)}
    (splits : Splits ts closed []) {g : Grammar} {d : Diagnostic} :
    ofTokens g ts = .error d ↔ FirstRefused g closed d := by
  rw [splits.ofTokens_eq, Except.mapM_eq_error_iff]
  constructor
  · rintro ⟨before, segment, behind, program, split, through, refused⟩
    refine ⟨before, segment, behind, split, ?_, refused⟩
    intro earlier mem
    obtain ⟨s, -, meaning⟩ := Except.exists_of_mem_of_mapM through mem
    exact ⟨s, meaning⟩
  · rintro ⟨before, segment, behind, split, through, refused⟩
    obtain ⟨program, meaning⟩ := Except.exists_mapM_eq_ok through
    exact ⟨before, segment, behind, program, split, meaning, refused⟩

/-! ### Ended tokens -/

/-- Ended tokens are read before those behind them, and apart from them.  The delimiter keeps
their statements from running on. -/
theorem Ended.ofTokens_append {a b : List Token} (first : Ended a) (second : Ended b)
    (g : Grammar) :
    ofTokens g (a ++ b) =
      ofTokens g a >>= fun pa => ofTokens g b >>= fun pb => .ok (pa ++ pb) := by
  have split := segments_append first.rest_eq_nil b
  have closed : (segments (a ++ b)).2 = [] := by rw [split, second.rest_eq_nil]
  rw [ofTokens_of_closed closed, ofTokens_of_closed first.rest_eq_nil,
    ofTokens_of_closed second.rest_eq_nil, split, List.filter_append, List.mapM_append]
  rfl

/-- **Tokens are split into statements exactly.**  Tokens are, in one way, segments that a
delimiter ends each and a rest behind the last delimiter.  If the rest is not empty they are
refused because a delimiter is missing, at the first token of the rest, whatever the segments are.
Else they mean the statements of the segments that are not empty, in order, or are refused like
the first of these that is.  So tokens that end with a delimiter, or are none, are a program
together with other such tokens exactly if both are, and then the one program behind the other;
else they are refused as the first tokens are, or, if these are a program, as the second. -/
theorem ofTokens_exact (g : Grammar) :
    (∀ ts, ∃! split : List (List Token) × List Token, Splits ts split.1 split.2) ∧
      (∀ ts closed t rest, Splits ts closed (t :: rest) →
        ofTokens g ts = .error (missingDelimiter t)) ∧
      (∀ ts closed, Splits ts closed [] →
        (∀ program, ofTokens g ts = .ok program ↔ Meant g closed program) ∧
          ∀ d, ofTokens g ts = .error d ↔ FirstRefused g closed d) ∧
      ∀ a b, Ended a → Ended b →
        (∀ program, ofTokens g (a ++ b) = .ok program ↔
          ∃ pa pb, ofTokens g a = .ok pa ∧ ofTokens g b = .ok pb ∧ program = pa ++ pb) ∧
          ∀ d, ofTokens g (a ++ b) = .error d ↔
            ofTokens g a = .error d ∨ (∃ pa, ofTokens g a = .ok pa) ∧ ofTokens g b = .error d := by
  refine ⟨?_, ?_, ?_, ?_⟩
  · intro ts
    refine ⟨segments ts, splits_segments ts, ?_⟩
    intro split splits
    exact (splits_iff.mp splits).symm
  · intro ts closed t rest splits
    exact ofTokens_of_open (congrArg Prod.snd splits.segments_eq) g
  · intro ts closed splits
    exact ⟨fun _ => splits.ofTokens_eq_ok_iff, fun _ => splits.ofTokens_eq_error_iff⟩
  · intro a b first second
    rw [first.ofTokens_append second]
    cases ofTokens g a <;> cases ofTokens g b <;> simp [bind, Except.bind, eq_comm]

end Pizzeria.Program
