import Pizzeria.Report

/-!
# Rankings

The ranking of a session is determined by three properties: it has the orders of the session,
votes never increase along it, and orders with equally many votes stand in it as they came in.
The last property is stated for the orders of each number of votes as a whole.  It also covers
orders that cannot be told apart, for which it makes no sense to ask which of them comes first.

The report about the `n` best orders lists a beginning of the ranking.  So a longer list only
adds to a shorter one, and nothing that is left out has more votes than what is listed.

## Main Definitions

* `Session.Ranked` — a list is the ranking, by its properties.

## Main Results

* `Order.eq_of_descending` — the properties determine the list.
* `Session.ranked_ranking` — the ranking has them.
* `Session.votes_le_of_unlisted` — an order that is not listed has no more votes.
-/

namespace Pizzeria

namespace Order

/-- Votes never increase along the list. -/
def Descending (l : List Order) : Prop := l.Pairwise fun a b => b.votes.toInt ≤ a.votes.toInt

/-- The orders of the list that have that many votes. -/
def withVotes (votes : Int32) (l : List Order) : List Order := l.filter fun o => o.votes == votes

theorem mem_withVotes {votes : Int32} {l : List Order} {o : Order} :
    o ∈ withVotes votes l ↔ o ∈ l ∧ o.votes = votes := by
  rw [withVotes, List.mem_filter, beq_iff_eq]

theorem withVotes_cons_of_eq {votes : Int32} {o : Order} (counted : o.votes = votes)
    (l : List Order) : withVotes votes (o :: l) = o :: withVotes votes l :=
  List.filter_cons_of_pos (p := fun o : Order => o.votes == votes) (beq_iff_eq.mpr counted)

theorem withVotes_cons_of_ne {votes : Int32} {o : Order} (other : o.votes ≠ votes)
    (l : List Order) : withVotes votes (o :: l) = withVotes votes l :=
  List.filter_cons_of_neg (p := fun o : Order => o.votes == votes) (by simpa using other)

/-- Orders of the same numbers of votes, each in the same order, are the same orders.  So nothing
besides has to be assumed about two rankings. -/
theorem mem_of_withVotes_eq {l m : List Order} (same : ∀ v, withVotes v l = withVotes v m)
    {o : Order} (mem : o ∈ l) : o ∈ m := by
  have among : o ∈ withVotes o.votes l := mem_withVotes.mpr ⟨mem, rfl⟩
  rw [same] at among
  exact (mem_withVotes.mp among).1

/-- Nothing behind the first order has more votes.  In a ranking the first order is therefore
settled by its votes and its place among its equals. -/
theorem Descending.votes_le {a : Order} {l : List Order} (descending : Descending (a :: l))
    {o : Order} (mem : o ∈ a :: l) : o.votes.toInt ≤ a.votes.toInt := by
  rcases List.mem_cons.mp mem with rfl | mem
  · exact Int.le_refl _
  · exact (List.pairwise_cons.mp descending).1 o mem

/-- A list along which votes never increase is determined by its orders of each number of
votes. -/
theorem eq_of_descending {l m : List Order} (left : Descending l) (right : Descending m)
    (same : ∀ v, withVotes v l = withVotes v m) : l = m := by
  induction l generalizing m with
  | nil =>
      cases m with
      | nil => rfl
      | cons b m =>
          have mem : b ∈ [] := mem_of_withVotes_eq (fun v => (same v).symm) List.mem_cons_self
          exact absurd mem List.not_mem_nil
  | cons a l ih =>
      cases m with
      | nil =>
          have mem : a ∈ [] := mem_of_withVotes_eq same List.mem_cons_self
          exact absurd mem List.not_mem_nil
      | cons b m =>
          -- Each of the two first orders is in the other list, so they have equally many votes,
          -- and are the first ones with that many.
          have votes : b.votes = a.votes := by
            apply Int32.toInt.inj
            apply Int.le_antisymm
            · exact left.votes_le
                (mem_of_withVotes_eq (fun v => (same v).symm) List.mem_cons_self)
            · exact right.votes_le (mem_of_withVotes_eq same List.mem_cons_self)
          have heads : a :: withVotes a.votes l = b :: withVotes a.votes m := by
            rw [← withVotes_cons_of_eq rfl, ← withVotes_cons_of_eq votes, same]
          obtain ⟨rfl, -⟩ := List.cons.inj heads
          have rest : ∀ v, withVotes v l = withVotes v m := by
            intro v
            have these := same v
            by_cases counted : a.votes = v
            · rw [withVotes_cons_of_eq counted, withVotes_cons_of_eq counted] at these
              exact (List.cons.inj these).2
            · rwa [withVotes_cons_of_ne counted, withVotes_cons_of_ne counted] at these
          rw [ih (List.pairwise_cons.mp left).2 (List.pairwise_cons.mp right).2 rest]

end Order

namespace Session

/-- The list has the orders of the session, most votes first, and those with equally many votes
in the order of entry. -/
structure Ranked (s : Session) (l : List Order) : Prop where
  perm : l.Perm s.orders
  descending : Order.Descending l
  stable : ∀ v, Order.withVotes v l = Order.withVotes v s.orders

/-- The order by which orders are ranked. -/
def atLeast (a b : Order) : Bool := decide (b.votes.toInt ≤ a.votes.toInt)

/-- Having at least as many votes is transitive, as the sort needs. -/
theorem atLeast_trans (a b c : Order) (first : atLeast a b = true) (second : atLeast b c = true) :
    atLeast a c = true := by
  unfold atLeast at *
  rw [decide_eq_true_eq] at *
  exact Int.le_trans second first

theorem atLeast_total (a b : Order) : (atLeast a b || atLeast b a) = true := by
  unfold atLeast
  rw [Bool.or_eq_true, decide_eq_true_eq, decide_eq_true_eq]
  exact Int.le_total _ _

/-- Ranking moves orders and neither loses nor repeats any. -/
theorem perm_ranking (s : Session) : s.ranking.Perm s.orders := List.mergeSort_perm _ _

theorem descending_ranking (s : Session) : Order.Descending s.ranking := by
  have sorted : s.ranking.Pairwise fun a b => atLeast a b = true :=
    List.pairwise_mergeSort atLeast_trans atLeast_total s.orders
  exact sorted.imp of_decide_eq_true

/-- Orders with equally many votes are in no need of being moved, and are not.  The sort is
stable, so the one that was placed first is listed first. -/
theorem withVotes_ranking (s : Session) (v : Int32) :
    Order.withVotes v s.ranking = Order.withVotes v s.orders := by
  have level : (Order.withVotes v s.orders).Pairwise fun a b => atLeast a b = true := by
    apply List.Pairwise.imp_of_mem (R := fun _ _ => True)
    · intro a b left right _
      rw [atLeast, (Order.mem_withVotes.mp left).2, (Order.mem_withVotes.mp right).2]
      exact decide_eq_true (Int.le_refl _)
    · exact List.pairwise_of_forall fun _ _ => trivial
  have kept : (Order.withVotes v s.orders).Sublist s.ranking :=
    List.sublist_mergeSort atLeast_trans atLeast_total level List.filter_sublist
  have among := kept.filter fun o => o.votes == v
  rw [Order.withVotes, List.filter_filter] at among
  simp only [Bool.and_self] at among
  -- All orders with that many votes are in the ranking, and it has no others.
  exact (among.eq_of_length (s.perm_ranking.filter _).length_eq.symm).symm

theorem ranked_ranking (s : Session) : s.Ranked s.ranking :=
  ⟨s.perm_ranking, s.descending_ranking, s.withVotes_ranking⟩

/-- The properties determine the ranking, so that any stable sort by votes would give the same
list. -/
theorem ranked_iff {s : Session} {l : List Order} : s.Ranked l ↔ l = s.ranking := by
  constructor
  · intro ranked
    apply Order.eq_of_descending ranked.descending s.descending_ranking
    intro v
    rw [ranked.stable, s.withVotes_ranking]
  · rintro rfl
    exact s.ranked_ranking

/-- An order that is not among the first has no more votes than those that are.  It may have as
many, if it was placed later. -/
theorem votes_le_of_unlisted {s : Session} {n : Nat} {listed unlisted : Order}
    (front : listed ∈ s.ranking.take n) (behind : unlisted ∈ s.ranking.drop n) :
    unlisted.votes.toInt ≤ listed.votes.toInt := by
  have descending := s.descending_ranking
  rw [← List.take_append_drop n s.ranking] at descending
  exact (List.pairwise_append.mp descending).2.2 listed front unlisted behind

/-- **The ranking is the stable sort by votes, and reports list a beginning of it.**  The ranking
is the one list that has the orders of the session, along which votes never increase, and in
which orders with equally many votes stand in the order of entry.  The report about the `n` best
orders is its header and the descriptions of the first `n` orders of the ranking, or of all if
there are fewer.  So what it lists for `n` is a beginning of what it lists for any larger number,
and no order that is listed has fewer votes than one that is not. -/
theorem ranking_exact (s : Session) :
    (∀ l, s.Ranked l ↔ l = s.ranking) ∧
      (∀ n settings, s.topReport n settings =
        ("Top " ++ Text.ofNat n ++ " orders:") ::
          (s.ranking.take (min n s.orders.length)).map fun o => o.describe none settings.detail) ∧
      (∀ n m settings, n ≤ m →
        (s.topReport n settings).tail <+: (s.topReport m settings).tail) ∧
      ∀ n, ∀ listed ∈ s.ranking.take n, ∀ unlisted ∈ s.ranking.drop n,
        unlisted.votes.toInt ≤ listed.votes.toInt := by
  refine ⟨fun _ => ranked_iff, ?_, ?_, ?_⟩
  · intro n settings
    rw [topReport, ← s.perm_ranking.length_eq, ← List.take_eq_take_min]
  · intro n m settings fewer
    exact (List.take_prefix_take_left fewer).map _
  · intro n listed front unlisted behind
    exact votes_le_of_unlisted front behind

end Session

end Pizzeria
