import Pizzeria.Proofs.Forms

/-!
# Which rules compete

Whether two slots overlap is looked up in a table of their own, and not by trying tokens.
The table is right: two slots overlap exactly if there is a token that both accept.  As
slots are filled independently of each other, the same holds of signatures, and
`Grammar.overlaps` lists exactly the pairs of rules that compete for some tokens.

Where no rules compete, at most one rule accepts given tokens.  The first rule that accepts
them is then the only one, and it is found wherever it stands.

## Main Definitions

* `Grammar.AcceptsAt` — the rule with a number accepts tokens.

## Main Results

* `Slot.overlaps_iff`, `Signature.overlaps_iff` — overlaps are common tokens.
* `Grammar.mem_overlaps_iff` — what is listed.
* `Grammar.build?_of_perm` — without overlaps the order of the rules is of no importance.
-/

namespace Pizzeria

/-! ### Slots and signatures -/

/-- Some value of a kind. -/
def Token.Kind.sample : Token.Kind → Token.Value
  | keyword => .keyword .PIZZA
  | integer => .integer 0
  | string => .string ""
  | pizza => .pizza .standard
  | element => .element (.crust .standard)
  | delimiter => .delimiter

@[simp] theorem Token.Kind.kind_sample (k : Token.Kind) : k.sample.kind = k := by
  cases k <;> rfl

namespace Slot

theorem not_specifier_admits_keyword (w : Keyword) : ¬ specifier.Admits (.keyword w) := by
  rintro ⟨order, refers⟩
  cases refers

/-- A slot for a reference goes by kinds alone, like a slot for a kind. -/
theorem specifier_admits_iff {v : Token.Value} :
    specifier.Admits v ↔ v.kind.isSpecifier = true :=
  Token.Value.isSpecifier_kind_iff.symm

theorem overlaps_comm (a b : Slot) : a.overlaps b = b.overlaps a := by
  cases a <;> cases b <;> simp only [overlaps, Bool.beq_comm]

/-- The slot of a keyword holds this keyword only, so it is enough to try the other slot.  This is
the one case in which a value matters and not just its kind. -/
theorem word_overlaps_iff {w : Keyword} {b : Slot} :
    (word w).overlaps b = true ↔ ∃ v, (word w).Admits v ∧ b.Admits v := by
  have only : (∃ v, (word w).Admits v ∧ b.Admits v) ↔ b.Admits (.keyword w) := exists_eq_left
  rw [only]
  cases b with
  | word w' =>
      rw [overlaps, beq_iff_eq]
      exact ⟨congrArg _, Token.Value.keyword.inj⟩
  | kind k =>
      rw [overlaps, beq_iff_eq]
      exact eq_comm
  | specifier =>
      rw [overlaps]
      exact iff_of_false Bool.false_ne_true (not_specifier_admits_keyword w)

theorem kind_overlaps_kind_iff {k k' : Token.Kind} :
    (kind k).overlaps (kind k') = true ↔ ∃ v, (kind k).Admits v ∧ (kind k').Admits v := by
  rw [overlaps, beq_iff_eq]
  constructor
  · rintro rfl
    exact ⟨k.sample, k.kind_sample, k.kind_sample⟩
  · rintro ⟨v, left, right⟩
    exact left.symm.trans right

/-- A slot for a reference overlaps with a slot for a kind exactly if values of the kind are
references.  A sample of the kind shows it. -/
theorem specifier_overlaps_kind_iff {k : Token.Kind} :
    specifier.overlaps (kind k) = true ↔ ∃ v, specifier.Admits v ∧ (kind k).Admits v := by
  simp only [specifier_admits_iff]
  constructor
  · intro refers
    refine ⟨k.sample, ?_, k.kind_sample⟩
    rwa [k.kind_sample]
  · rintro ⟨v, refers, rfl⟩
    exact refers

/-- Two slots overlap exactly if some value may stand in both.  The test looks at the slots only,
and is right about all values. -/
theorem overlaps_iff {a b : Slot} : a.overlaps b = true ↔ ∃ v, a.Admits v ∧ b.Admits v := by
  have swap {a b : Slot} (known : a.overlaps b = true ↔ ∃ v, a.Admits v ∧ b.Admits v) :
      b.overlaps a = true ↔ ∃ v, b.Admits v ∧ a.Admits v := by
    simpa only [overlaps_comm b a, and_comm] using known
  cases a with
  | word w => exact word_overlaps_iff
  | kind k =>
      cases b with
      | word w => exact swap word_overlaps_iff
      | kind k' => exact kind_overlaps_kind_iff
      | specifier => exact swap specifier_overlaps_kind_iff
  | specifier =>
      cases b with
      | word w => exact swap word_overlaps_iff
      | kind k => exact specifier_overlaps_kind_iff
      | specifier => exact iff_of_true rfl ⟨.integer 0, ⟨_, .index 0⟩, ⟨_, .index 0⟩⟩

end Slot

namespace Signature

/-- There is one token for each slot.  So signatures of different lengths have no tokens in
common. -/
theorem length_of_accepts {signature : Signature} {ts : List Token}
    (accepted : signature.accepts ts = true) : signature.length = ts.length := by
  have length := (accepts_iff.mp accepted).length_eq
  rwa [List.length_map] at length

/-- Two signatures overlap exactly if some tokens fill the slots of both.  The tokens are put
together from a value for each pair of slots. -/
theorem overlaps_iff {a b : Signature} :
    a.overlaps b = true ↔ ∃ ts, a.accepts ts = true ∧ b.accepts ts = true := by
  induction a generalizing b with
  | nil =>
      cases b with
      | nil => exact iff_of_true rfl ⟨[], rfl, rfl⟩
      | cons slot slots =>
          refine iff_of_false Bool.false_ne_true ?_
          rintro ⟨ts, left, right⟩
          cases (length_of_accepts left).trans (length_of_accepts right).symm
  | cons slot slots ih =>
      cases b with
      | nil =>
          refine iff_of_false Bool.false_ne_true ?_
          rintro ⟨ts, left, right⟩
          cases (length_of_accepts left).trans (length_of_accepts right).symm
      | cons slot' slots' =>
          rw [overlaps, Bool.and_eq_true_iff, Slot.overlaps_iff, ih]
          constructor
          -- A token is nothing but its value here, so any place and text will do.
          · rintro ⟨⟨v, left, right⟩, ts, lefts, rights⟩
            refine ⟨⟨v, .start, ""⟩ :: ts, ?_, ?_⟩
            · rw [accepts, Bool.and_eq_true_iff, Slot.accepts_iff]
              exact ⟨left, lefts⟩
            · rw [accepts, Bool.and_eq_true_iff, Slot.accepts_iff]
              exact ⟨right, rights⟩
          · rintro ⟨ts, lefts, rights⟩
            cases ts with
            | nil => cases length_of_accepts lefts
            | cons t ts =>
                rw [accepts, Bool.and_eq_true_iff, Slot.accepts_iff] at lefts rights
                exact ⟨⟨t.value, lefts.1, rights.1⟩, ts, lefts.2, rights.2⟩

end Signature

/-! ### Grammars -/

namespace Grammar

/-- The rule with this number, counted from zero, accepts the tokens. -/
def AcceptsAt (g : Grammar) (i : Nat) (ts : List Token) : Prop :=
  ∃ rule, g.rules[i]? = some rule ∧ rule.signature.accepts ts = true

/-- The members behind a position, each with its own.  The search for overlaps goes through pairs
of positions in that way. -/
theorem mem_drop_zipIdx_iff {α : Type} {xs : List α} {i j : Nat} {x : α} :
    (x, j) ∈ xs.zipIdx.drop (i + 1) ↔ i < j ∧ xs[j]? = some x := by
  simp only [List.mem_iff_getElem?, List.getElem?_drop, List.getElem?_zipIdx, Nat.zero_add,
    Option.map_eq_some_iff, Prod.mk.injEq]
  constructor
  · rintro ⟨m, _, found, rfl, rfl⟩
    exact ⟨by omega, found⟩
  · rintro ⟨later, found⟩
    have place : i + 1 + (j - (i + 1)) = j := by omega
    exact ⟨j - (i + 1), x, by rw [place, found], rfl, place⟩

/-- A pair is listed exactly if the first rule stands before the second one, and both accept
some tokens. -/
theorem mem_overlaps_iff {g : Grammar} {i j : Nat} :
    (i, j) ∈ g.overlaps ↔ i < j ∧ ∃ ts, g.AcceptsAt i ts ∧ g.AcceptsAt j ts := by
  simp only [overlaps, signatures, List.mem_flatMap, List.mem_filterMap, Prod.exists,
    List.mem_zipIdx_iff_getElem?, mem_drop_zipIdx_iff, List.getElem?_map, Option.map_eq_some_iff,
    Option.ite_none_right_eq_some, Option.some.injEq, Prod.mk.injEq, Signature.overlaps_iff]
  constructor
  · rintro ⟨_, i, ⟨a, first, rfl⟩, _, j, ⟨later, b, second, rfl⟩, ⟨ts, left, right⟩, rfl, rfl⟩
    exact ⟨later, ts, ⟨a, first, left⟩, b, second, right⟩
  · rintro ⟨later, ts, ⟨a, first, left⟩, b, second, right⟩
    exact ⟨_, i, ⟨a, first, rfl⟩, _, j, ⟨later, b, second, rfl⟩, ⟨ts, left, right⟩, rfl, rfl⟩

theorem AcceptsAt.lt_size {g : Grammar} {i : Nat} {ts : List Token} (accepts : g.AcceptsAt i ts) :
    i < g.size := by
  obtain ⟨rule, found, -⟩ := accepts
  exact (List.getElem?_eq_some_iff.mp found).1

section Unambiguous

variable {g : Grammar} (unambiguous : g.overlaps = [])

include unambiguous

/-- Of two rules that accept the same tokens neither comes before the other, if no rules
overlap. -/
theorem AcceptsAt.not_lt {i j : Nat} {ts : List Token} (left : g.AcceptsAt i ts)
    (right : g.AcceptsAt j ts) : ¬ i < j := by
  intro before
  have listed := mem_overlaps_iff.mpr ⟨before, ts, left, right⟩
  rw [unambiguous] at listed
  cases listed

/-- At most one rule accepts given tokens, if no rules overlap.  Then it does not matter that the
first rule decides. -/
theorem AcceptsAt.unique {i j : Nat} {ts : List Token} (left : g.AcceptsAt i ts)
    (right : g.AcceptsAt j ts) : i = j :=
  Nat.le_antisymm (Nat.not_lt.mp (right.not_lt unambiguous left))
    (Nat.not_lt.mp (left.not_lt unambiguous right))

/-- No two of the rules accept the same tokens.  In this form it is a property of the list of
rules, which a change of their order keeps. -/
theorem pairwise_not_accepts (ts : List Token) :
    g.rules.Pairwise fun a b =>
      ¬ (a.signature.accepts ts = true ∧ b.signature.accepts ts = true) := by
  rw [List.pairwise_iff_getElem]
  rintro i j first second before ⟨left, right⟩
  exact AcceptsAt.not_lt unambiguous ⟨_, List.getElem?_eq_getElem first, left⟩
    ⟨_, List.getElem?_eq_getElem second, right⟩ before

/-- Of the rules that accept the tokens there is none, or there is one.  So the rule that decides
can be found without looking at the order. -/
theorem filter_accepts_cases (ts : List Token) :
    g.rules.filter (fun rule => rule.signature.accepts ts) = [] ∨
      ∃ rule, g.rules.filter (fun rule => rule.signature.accepts ts) = [rule] := by
  have apart := (pairwise_not_accepts unambiguous ts).filter fun rule => rule.signature.accepts ts
  have accepting : ∀ rule ∈ g.rules.filter fun rule => rule.signature.accepts ts,
      rule.signature.accepts ts = true := fun rule mem => (List.mem_filter.mp mem).2
  generalize (g.rules.filter fun rule => rule.signature.accepts ts) = rules at apart accepting
  match rules with
  | [] => exact Or.inl rfl
  | [rule] => exact Or.inr ⟨rule, rfl⟩
  | a :: b :: others =>
      have both := (List.pairwise_cons.mp apart).1 b List.mem_cons_self
      exact absurd ⟨accepting a (by simp), accepting b (by simp)⟩ both

/-- The same rules in another order build the same statements.  Rules could be added in front as
well as behind. -/
theorem build?_of_perm {g' : Grammar} (perm : g.rules.Perm g'.rules) (ts : List Token) :
    g'.build? ts = g.build? ts := by
  have filtered := perm.filter fun rule => rule.signature.accepts ts
  -- The first rule that accepts the tokens is the first of those that do.
  rw [build?, build?, find?, find?, ← List.head?_filter, ← List.head?_filter]
  rcases filter_accepts_cases unambiguous ts with nobody | ⟨rule, single⟩
  · rw [nobody] at filtered ⊢
    rw [← filtered.nil_eq]
  · rw [single] at filtered ⊢
    rw [List.perm_singleton.mp filtered.symm]

end Unambiguous

/-- **The list of overlaps is exact.**  In every grammar it holds the numbers of two rules, the
first before the second, exactly if some tokens fill the signatures of both.  Where it is
empty, as it is in every version, no tokens fill the signatures of two rules, and whatever
the order of the rules, they build the same from all tokens. -/
theorem overlaps_exact (g : Grammar) :
    (∀ i j, (i, j) ∈ g.overlaps ↔
      i < j ∧ j < g.size ∧ ∃ ts, g.AcceptsAt i ts ∧ g.AcceptsAt j ts) ∧
    (g.overlaps = [] →
      (∀ ts i j, g.AcceptsAt i ts → g.AcceptsAt j ts → i = j) ∧
        ∀ g' : Grammar, g.rules.Perm g'.rules → ∀ ts, g'.build? ts = g.build? ts) ∧
    ∀ v : Version, v.grammar.overlaps = [] := by
  refine ⟨?_, ?_, ?_⟩
  · intro i j
    rw [mem_overlaps_iff]
    constructor
    · rintro ⟨before, ts, left, right⟩
      exact ⟨before, right.lt_size, ts, left, right⟩
    · rintro ⟨before, -, common⟩
      exact ⟨before, common⟩
  · intro unambiguous
    refine ⟨?_, ?_⟩
    · intro ts i j left right
      exact left.unique unambiguous right
    · intro g' perm ts
      exact build?_of_perm unambiguous perm ts
  · intro v
    rw [Version.grammar_eq]
    decide +kernel

/-- Three words that fill the slots of one rule only, read with the rules in reverse. -/
theorem overlaps_exact_reversed :
    ∃ (reversed : Grammar) (ts : List Token),
      Grammar.spl2.overlaps = [] ∧ Grammar.spl2.rules.Perm reversed.rules ∧
      ts.map Token.value = [.keyword .VIEW, .keyword .PIZZA, .keyword .DETAILS] ∧
      Grammar.spl2.AcceptsAt 12 ts ∧ (∀ i, Grammar.spl2.AcceptsAt i ts → i = 12) ∧
      Grammar.spl2.build? ts = some (.ok (.viewPizza none true)) ∧
      reversed.build? ts = Grammar.spl2.build? ts := by
  have unambiguous : Grammar.spl2.overlaps = [] := (overlaps_exact Grammar.spl2).2.2 .spl2
  obtain ⟨unique, sameOrder⟩ := (overlaps_exact Grammar.spl2).2.1 unambiguous
  have perm := Grammar.spl2.rules.reverse_perm.symm
  refine ⟨⟨Grammar.spl2.rules.reverse⟩,
    [⟨.keyword .VIEW, .start, "VIEW"⟩, ⟨.keyword .PIZZA, ⟨1, 6⟩, "PIZZA"⟩,
      ⟨.keyword .DETAILS, ⟨1, 12⟩, "DETAILS"⟩],
    unambiguous, perm, rfl, ⟨_, rfl, rfl⟩, ?_, rfl, sameOrder _ perm _⟩
  intro i accepts
  exact unique _ i 12 accepts ⟨_, rfl, rfl⟩

end Grammar

end Pizzeria
