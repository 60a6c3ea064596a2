import Mathlib.Data.List.Induction
import Mathlib.Data.List.Pairwise
import Pizzeria.Pizza.Literal
import Pizzeria.Proofs.Outcome
import Pizzeria.Proofs.Sameness

/-!
# Elements make a pizza

A pizza is put together from its elements one after the other, and the draft that is
reached depends only on what was placed: it holds the base components and the arrangements
of the elements so far.  So one step says everything: an element is refused exactly if it
conflicts with an earlier one, and the refusal is about that element.

Whether elements conflict does not depend on their order, and neither do the base components
that they give.  The order shows in the order of the toppings only, which `Pizza.same` does
not look at.

## Main Definitions

* `Element.Conflicts` — two elements cannot be on one pizza.
* `Element.Compatible` — no element of a list conflicts with an earlier one.
* `Pizza.MadeOf` — a pizza has the components that elements give, and defaults for the rest.

## Main Results

* `List.pairwise_or_exists_first` — a list without a first conflict has none.
* `Pizza.Draft.holds_collect_iff` — what a draft holds is what the elements so far name.
* `Pizza.ofElements_eq_ok`, `Pizza.ofElements_eq_error` — the outcome on either side.
* `Pizza.MadeOf.of_perm` — what a pizza is made of, in another order.
-/

/-- The members of a list are related pairwise, or there is a first one to which an earlier
member is not related. -/
theorem List.pairwise_or_exists_first {α : Type} (R : α → α → Prop) (xs : List α) :
    xs.Pairwise R ∨ ∃ before x behind, xs = before ++ x :: behind ∧ before.Pairwise R ∧
      ∃ y ∈ before, ¬ R y x := by
  -- From the end, since what stands behind the first conflict does not matter.
  induction xs using List.reverseRecOn with
  | nil => exact Or.inl .nil
  | append_singleton xs x ih =>
      rcases ih with related | ⟨before, first, behind, rfl, related, unrelated⟩
      · by_cases conflict : ∃ y ∈ xs, ¬ R y x
        · exact Or.inr ⟨xs, x, [], rfl, related, conflict⟩
        · push Not at conflict
          refine Or.inl (List.pairwise_append.mpr ⟨related, List.pairwise_singleton R x, ?_⟩)
          intro y mem z last
          rw [List.mem_singleton.mp last]
          exact conflict y mem
      · exact Or.inr ⟨before, first, behind ++ [x], by simp, related, unrelated⟩

namespace Pizzeria

/-! ### Conflicts -/

namespace Element

/-- The two elements name the same base component, or the same arrangement. -/
def Conflicts (e e' : Element) : Prop :=
  (e.category = e'.category ∧ e.category ≠ .topping) ∨ e = e'

/-- Which of two elements that conflict comes first does not matter to the conflict, only to which
of them is refused. -/
theorem Conflicts.symm {e e' : Element} (conflict : e.Conflicts e') : e'.Conflicts e := by
  rcases conflict with ⟨same, base⟩ | rfl
  · exact Or.inl ⟨same.symm, same ▸ base⟩
  · exact Or.inr rfl

/-- No element of the list conflicts with an earlier one. -/
def Compatible (es : List Element) : Prop := es.Pairwise fun e e' => ¬ e.Conflicts e'

/-- The fault of an element that conflicts with an earlier one. -/
def repetition : Element → Pizza.Fault
  | crust _ => .redefinition .crust
  | sauce _ => .redefinition .sauce
  | cheese _ => .redefinition .cheese
  | topping a => .duplicate a

theorem Compatible.perm {es es' : List Element} (perm : es.Perm es') :
    Compatible es ↔ Compatible es' :=
  perm.pairwise_iff fun free conflict => free conflict.symm

/-- An element of a compatible list conflicts with none of those before it.  So it is placed when
its turn comes. -/
theorem Compatible.free {before behind : List Element} {e e' : Element}
    (compatible : Compatible (before ++ e :: behind)) (mem : e' ∈ before) : ¬ e'.Conflicts e :=
  (List.pairwise_append.mp compatible).2.2 e' mem e List.mem_cons_self

/-- Elements that conflict and stand in one compatible list are the same element.  This makes the
value of a base component unique. -/
theorem Compatible.eq_of_conflicts {es : List Element} (compatible : Compatible es)
    {e e' : Element} (mem : e ∈ es) (mem' : e' ∈ es) (conflict : e.Conflicts e') : e = e' := by
  have symm : Std.Symm fun e e' : Element => ¬ e.Conflicts e' :=
    ⟨fun _ _ free conflict => free conflict.symm⟩
  by_contra different
  exact compatible.forall mem mem' different conflict

/-! ### What elements give -/

/-- The crust that the element names. -/
def crust? : Element → Option Crust
  | crust c => some c
  | sauce _ | cheese _ | topping _ => none

/-- The sauce that the element names. -/
def sauce? : Element → Option Sauce
  | sauce s => some s
  | crust _ | cheese _ | topping _ => none

/-- The cheese that the element names. -/
def cheese? : Element → Option Cheese
  | cheese c => some c
  | crust _ | sauce _ | topping _ => none

/-- The arrangement that the element names. -/
def arrangement? : Element → Option Arrangement
  | topping a => some a
  | crust _ | sauce _ | cheese _ => none

theorem arrangement?_eq_some_iff {e : Element} {a : Arrangement} :
    e.arrangement? = some a ↔ e = topping a := by
  cases e <;> simp [arrangement?]

/-- Compatible elements repeat no arrangement, as a pizza must not. -/
theorem Compatible.nodup_arrangements {es : List Element} (compatible : Compatible es) :
    (es.filterMap arrangement?).Nodup := by
  refine compatible.filterMap arrangement? ?_
  intro e e' free a found a' found' same
  rw [arrangement?_eq_some_iff] at found found'
  subst found found' same
  exact free (Or.inr rfl)

/-- How a base component is named: `pick` finds what `make` names, and an element conflicts
with one that names the component exactly if it names it too. -/
structure Names {α : Type} (make : α → Element) (pick : Element → Option α) : Prop where
  picks : ∀ e x, pick e = some x ↔ e = make x
  clashes : ∀ e x, e.Conflicts (make x) ↔ (pick e).isSome = true

theorem names_crust : Names crust crust? where
  picks e c := by cases e <;> simp [crust?]
  clashes e c := by cases e <;> simp [crust?, Conflicts, category]

theorem names_sauce : Names sauce sauce? where
  picks e s := by cases e <;> simp [sauce?]
  clashes e s := by cases e <;> simp [sauce?, Conflicts, category]

theorem names_cheese : Names cheese cheese? where
  picks e c := by cases e <;> simp [cheese?]
  clashes e c := by cases e <;> simp [cheese?, Conflicts, category]

/-- The value is the one that the elements give, or the default if they give none. -/
def Given {α : Type} (make : α → Element) (default : α) (es : List Element) (value : α) : Prop :=
  make value ∈ es ∨ (∀ x, make x ∉ es) ∧ value = default

section Base

variable {α : Type} {make : α → Element} {pick : Element → Option α} {default value value' : α}
  {es es' : List Element}

/-- What is given for a base component does not depend on the order of the elements. -/
theorem Given.of_perm (perm : es.Perm es') (given : Given make default es value) :
    Given make default es' value := by
  rcases given with mem | ⟨absent, standard⟩
  · exact Or.inl (perm.mem_iff.mp mem)
  · exact Or.inr ⟨fun x mem => absent x (perm.mem_iff.mpr mem), standard⟩

namespace Names

variable (names : Names make pick)
include names

/-- A component is named already exactly if the next element that names it conflicts.  The draft
looks for what it holds, and the statement about lists for conflicts. -/
theorem isSome_findSome?_iff (es : List Element) (x : α) :
    (es.findSome? pick).isSome = true ↔ ∃ e ∈ es, e.Conflicts (make x) := by
  simp only [List.findSome?_isSome_iff, names.clashes]

theorem given_getD (default : α) (es : List Element) :
    Given make default es ((es.findSome? pick).getD default) := by
  cases found : es.findSome? pick with
  | some x =>
      obtain ⟨e, mem, picked⟩ := List.exists_of_findSome?_eq_some found
      obtain rfl := (names.picks e x).mp picked
      exact Or.inl mem
  | none =>
      refine Or.inr ⟨?_, rfl⟩
      intro x mem
      have absent := List.findSome?_eq_none_iff.mp found _ mem
      rw [(names.picks _ x).mpr rfl] at absent
      cases absent

/-- Compatible elements give at most one value of a base component: two elements that name it
would conflict. -/
theorem unique (compatible : Compatible es) (given : Given make default es value)
    (given' : Given make default es value') : value = value' := by
  have found (x : α) : pick (make x) = some x := (names.picks _ x).mpr rfl
  rcases given with mem | ⟨absent, rfl⟩ <;> rcases given' with mem' | ⟨absent', rfl⟩
  · have clash : (make value).Conflicts (make value') :=
      (names.clashes _ value').mpr (by rw [found]; rfl)
    have same := compatible.eq_of_conflicts mem mem' clash
    exact Option.some.inj ((found value).symm.trans (same ▸ found value'))
  · exact absurd mem (absent' value)
  · exact absurd mem' (absent value')
  · rfl

end Names

end Base

end Element

/-! ### Drafts -/

namespace Pizza

open Element (Compatible Given)

namespace Draft

/-- The draft names what the element names, so that the element cannot be placed. -/
def Holds (d : Draft) : Element → Prop
  | .crust _ => d.crust.isSome = true
  | .sauce _ => d.sauce.isSome = true
  | .cheese _ => d.cheese.isSome = true
  | .topping a => a ∈ d.toppings

/-- The draft with what one more element names. -/
def adding (d : Draft) (e : Element) : Draft where
  crust := d.crust.or e.crust?
  sauce := d.sauce.or e.sauce?
  cheese := d.cheese.or e.cheese?
  toppings := d.toppings ++ e.arrangement?.toList

/-- What the draft holds cannot be placed again, and the element is refused as a repetition. -/
theorem place_of_holds {d : Draft} {e : Element} (holds : d.Holds e) :
    d.place e = .error e.repetition := by
  cases e <;> exact if_pos holds

/-- What the draft does not hold is added to it.  With `place_of_holds` this says all there is to
placing. -/
theorem place_of_not_holds {d : Draft} {e : Element} (free : ¬ d.Holds e) :
    d.place e = .ok (d.adding e) := by
  cases e with
  | topping a =>
      rw [Holds] at free
      rw [place, if_neg free]
      simp [adding, Element.crust?, Element.sauce?, Element.cheese?, Element.arrangement?]
  | crust _ | sauce _ | cheese _ =>
      rw [Holds] at free
      rw [place, if_neg free]
      have absent := Option.not_isSome_iff_eq_none.mp free
      simp [adding, absent, Element.crust?, Element.sauce?, Element.cheese?, Element.arrangement?]

/-- The draft that holds what the elements give. -/
def collect (es : List Element) : Draft where
  crust := es.findSome? Element.crust?
  sauce := es.findSome? Element.sauce?
  cheese := es.findSome? Element.cheese?
  toppings := es.filterMap Element.arrangement?

theorem collect_concat (es : List Element) (e : Element) :
    collect (es ++ [e]) = (collect es).adding e := by
  cases e <;> simp [collect, adding, List.findSome?_append, Element.crust?, Element.sauce?,
    Element.cheese?, Element.arrangement?]

/-- An element conflicts with one that was placed exactly if the draft holds what it names.  This
ties the draft to the list of elements that it was made from. -/
theorem holds_collect_iff {es : List Element} {e : Element} :
    (collect es).Holds e ↔ ∃ e' ∈ es, e'.Conflicts e := by
  cases e with
  | crust c => exact Element.names_crust.isSome_findSome?_iff es c
  | sauce s => exact Element.names_sauce.isSome_findSome?_iff es s
  | cheese c => exact Element.names_cheese.isSome_findSome?_iff es c
  | topping a =>
      show a ∈ es.filterMap Element.arrangement? ↔ _
      rw [List.mem_filterMap]
      refine exists_congr fun e' => and_congr_right fun _ => ?_
      cases e' <;> simp [Element.arrangement?, Element.Conflicts, Element.category]

/-- The next element is placed if it conflicts with none of the earlier ones.  The step of the
induction over elements. -/
theorem place_collect {es : List Element} {e : Element}
    (free : ∀ e' ∈ es, ¬ e'.Conflicts e) : (collect es).place e = .ok (collect (es ++ [e])) := by
  rw [collect_concat]
  apply place_of_not_holds
  rw [holds_collect_iff]
  rintro ⟨e', mem, conflict⟩
  exact free e' mem conflict

/-- Compatible elements are all placed, behind others that they are compatible with.  The others
are what the induction is generalised over. -/
theorem foldlM_place {placed es : List Element} (compatible : Compatible (placed ++ es)) :
    es.foldlM place (collect placed) = .ok (collect (placed ++ es)) := by
  -- An element that is placed joins those that were, and the rest is compatible with all of them.
  induction es generalizing placed with
  | nil =>
      rw [List.append_nil]
      rfl
  | cons e es ih =>
      have free : ∀ e' ∈ placed, ¬ e'.Conflicts e := fun e' mem => compatible.free mem
      rw [List.append_cons] at compatible ⊢
      rw [List.foldlM_cons, place_collect free]
      exact ih compatible

/-- Elements are placed up to the first that conflicts with an earlier one.  What stands behind it
is not looked at. -/
theorem foldlM_place_of_conflict {before behind : List Element} {e e' : Element}
    (compatible : Compatible before) (mem : e' ∈ before) (conflict : e'.Conflicts e) :
    (before ++ e :: behind).foldlM place {} = .error e.repetition := by
  have placed : before.foldlM place {} = .ok (collect before) := @foldlM_place [] before compatible
  have refused : (collect before).place e = .error e.repetition :=
    place_of_holds (holds_collect_iff.mpr ⟨e', mem, conflict⟩)
  rw [List.foldlM_append, placed]
  show (e :: behind).foldlM place (collect before) = _
  rw [List.foldlM_cons, refused]
  rfl

end Draft

/-! ### Pizzas -/

/-- The pizza has the base components that the elements give, the defaults for those that they
do not give, and the toppings that they give, in their order. -/
structure MadeOf (p : Pizza) (es : List Element) : Prop where
  crust : Given .crust defaultCrust es p.crust
  sauce : Given .sauce defaultSauce es p.sauce
  cheese : Given .cheese defaultCheese es p.cheese
  toppings : p.toppings = es.filterMap Element.arrangement?

/-- The finished draft has of each base component what the elements give, or the default, and all
their toppings in order. -/
theorem madeOf_collect (es : List Element) : (Draft.collect es).finish.MadeOf es where
  crust := Element.names_crust.given_getD defaultCrust es
  sauce := Element.names_sauce.given_getD defaultSauce es
  cheese := Element.names_cheese.given_getD defaultCheese es
  toppings := rfl

/-- Compatible elements make one pizza only, so saying what it is made of is saying which it
is. -/
theorem MadeOf.unique {es : List Element} {p q : Pizza} (compatible : Compatible es)
    (made : p.MadeOf es) (made' : q.MadeOf es) : p = q := by
  cases p
  cases q
  obtain ⟨crust, sauce, cheese, rfl⟩ := made
  obtain ⟨crust', sauce', cheese', rfl⟩ := made'
  rw [Pizza.mk.injEq]
  exact ⟨Element.names_crust.unique compatible crust crust',
    Element.names_sauce.unique compatible sauce sauce',
    Element.names_cheese.unique compatible cheese cheese', rfl⟩

/-- The same elements in another order make the same pizza but for the order of its toppings.  The
base is a matter of which elements there are. -/
theorem MadeOf.of_perm {es es' : List Element} {p : Pizza} (perm : es.Perm es')
    (made : p.MadeOf es) :
    MadeOf { p with toppings := es'.filterMap Element.arrangement? } es' where
  crust := made.crust.of_perm perm
  sauce := made.sauce.of_perm perm
  cheese := made.cheese.of_perm perm
  toppings := rfl

theorem ofElements_eq_ok {es : List Element} {p : Pizza} (compatible : Compatible es)
    (made : p.MadeOf es) : ofElements es = .ok p := by
  have placed : es.foldlM Draft.place {} = .ok (Draft.collect es) :=
    @Draft.foldlM_place [] es compatible
  rw [ofElements, placed, made.unique compatible (madeOf_collect es)]
  rfl

theorem ofElements_eq_error {before behind : List Element} {e e' : Element}
    (compatible : Compatible before) (mem : e' ∈ before) (conflict : e'.Conflicts e) :
    ofElements (before ++ e :: behind) = .error e.repetition := by
  rw [ofElements, Draft.foldlM_place_of_conflict compatible mem conflict]
  rfl

/-- Elements are compatible and make a pizza, or the first that conflicts with an earlier one
is refused. -/
theorem ofElements_cases (es : List Element) :
    (∃ p, ofElements es = .ok p ∧ Compatible es ∧ p.MadeOf es) ∨
      ∃ before e behind, es = before ++ e :: behind ∧ Compatible before ∧
        (∃ e' ∈ before, e'.Conflicts e) ∧ ofElements es = .error e.repetition := by
  rcases List.pairwise_or_exists_first (fun e e' => ¬ e.Conflicts e') es with
    compatible | ⟨before, e, behind, rfl, compatible, e', mem, conflict⟩
  · have made := madeOf_collect es
    exact Or.inl ⟨_, ofElements_eq_ok compatible made, compatible, made⟩
  · have conflict := not_not.mp conflict
    exact Or.inr ⟨before, e, behind, rfl, compatible, ⟨e', mem, conflict⟩,
      ofElements_eq_error compatible mem conflict⟩

/-- Elements make a pizza exactly if no two of them conflict, and then it is the one that they
make. -/
theorem ofElements_eq_ok_iff {es : List Element} {p : Pizza} :
    ofElements es = .ok p ↔ Compatible es ∧ p.MadeOf es := by
  constructor
  · intro accepted
    rcases ofElements_cases es with ⟨q, found, compatible, made⟩ | ⟨_, _, _, -, -, -, refused⟩
    · cases accepted.symm.trans found
      exact ⟨compatible, made⟩
    · cases accepted.symm.trans refused
  · rintro ⟨compatible, made⟩
    exact ofElements_eq_ok compatible made

/-- Elements are refused for the first one that conflicts with an earlier one, and reported as its
repetition. -/
theorem ofElements_eq_error_iff {es : List Element} {f : Fault} :
    ofElements es = .error f ↔
      ∃ before e behind, es = before ++ e :: behind ∧ Compatible before ∧
        (∃ e' ∈ before, e'.Conflicts e) ∧ f = e.repetition := by
  constructor
  · intro refused
    rcases ofElements_cases es with
      ⟨p, accepted, -⟩ | ⟨before, e, behind, split, compatible, conflict, found⟩
    · cases refused.symm.trans accepted
    · cases refused.symm.trans found
      exact ⟨before, e, behind, split, compatible, conflict, rfl⟩
  · rintro ⟨before, e, behind, rfl, compatible, ⟨e', mem, conflict⟩, rfl⟩
    exact ofElements_eq_error compatible mem conflict

/-! ### Other orders -/

/-- Pizzas with the same base, and the same toppings in any order, are the same.  This is the
sense in which the order of elements does not matter. -/
theorem same_of_perm {p : Pizza} {toppings : List Arrangement} (perm : p.toppings.Perm toppings) :
    p.same { p with toppings } = true :=
  same_iff.mpr ⟨rfl, rfl, rfl, perm⟩

/-- Elements that make a pizza make the same one in any order, since conflicts have no
direction. -/
theorem exists_ofElements_of_perm {es es' : List Element} {p : Pizza} (perm : es.Perm es')
    (accepted : ofElements es = .ok p) : ∃ p', ofElements es' = .ok p' ∧ p.same p' = true := by
  obtain ⟨compatible, made⟩ := ofElements_eq_ok_iff.mp accepted
  have reordered : p.toppings.Perm (es'.filterMap Element.arrangement?) := by
    rw [made.toppings]
    exact perm.filterMap Element.arrangement?
  exact ⟨_, ofElements_eq_ok ((Compatible.perm perm).mp compatible) (made.of_perm perm),
    same_of_perm reordered⟩

/-- **Assembly is exact, and the order of the elements does not matter.**  Elements are refused
exactly if one of them conflicts with an earlier one, and then the refusal is about the first
that does.  Else they make the pizza that has the base components they give, the defaults for
those they do not give, and their toppings in their order.  So the same elements in another
order are refused as well, or make the same pizza. -/
theorem ofElements_exact (es : List Element) :
    ((∃ f, ofElements es = .error f) ↔
        ∃ before e behind, es = before ++ e :: behind ∧ ∃ e' ∈ before, e'.Conflicts e) ∧
      (∀ f, ofElements es = .error f ↔
        ∃ before e behind, es = before ++ e :: behind ∧ Compatible before ∧
          (∃ e' ∈ before, e'.Conflicts e) ∧ f = e.repetition) ∧
      (∀ p, ofElements es = .ok p ↔ Compatible es ∧ p.MadeOf es) ∧
      ∀ es', es.Perm es' →
        ((∃ p, ofElements es = .ok p) ↔ ∃ p, ofElements es' = .ok p) ∧
          ∀ p p', ofElements es = .ok p → ofElements es' = .ok p' → p.same p' = true := by
  refine ⟨⟨?_, ?_⟩, fun f => ofElements_eq_error_iff, fun p => ofElements_eq_ok_iff, ?_⟩
  · rintro ⟨f, refused⟩
    obtain ⟨before, e, behind, split, -, conflict, -⟩ := ofElements_eq_error_iff.mp refused
    exact ⟨before, e, behind, split, conflict⟩
  · rintro ⟨before, e, behind, rfl, e', mem, conflict⟩
    cases outcome : ofElements (before ++ e :: behind) with
    | error f => exact ⟨f, rfl⟩
    | ok p => exact absurd conflict ((ofElements_eq_ok_iff.mp outcome).1.free mem)
  · intro es' perm
    refine ⟨⟨?_, ?_⟩, ?_⟩
    · rintro ⟨p, accepted⟩
      obtain ⟨p', found, -⟩ := exists_ofElements_of_perm perm accepted
      exact ⟨p', found⟩
    · rintro ⟨p, accepted⟩
      obtain ⟨p', found, -⟩ := exists_ofElements_of_perm perm.symm accepted
      exact ⟨p', found⟩
    · intro p p' accepted accepted'
      obtain ⟨q, found, same⟩ := exists_ofElements_of_perm perm accepted
      cases accepted'.symm.trans found
      exact same

end Pizza

end Pizzeria
