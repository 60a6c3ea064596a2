import Mathlib.Data.List.Nodup
import Pizzeria.Report
import Pizzeria.Proofs.Assembly
import Pizzeria.Proofs.LiteralSpacing

/-!
# Descriptions identify pizzas

A description does not say which of its words are toppings and which belong to the base, nor
which components it leaves out.  It can be read back all the same.  No title has a comma, so the
commas divide the text into its titles.  No two components have the same title, of whatever kind
they are; a bracket can only begin the position of a topping, which is why titles need to be
compared for toppings on the whole pizza alone.  So the titles give back the components that are
listed, and what is not listed is at its default, as in a literal.

## Main Definitions

* `Element.title` — the name of a component in a description.
* `Pizza.listed` — the components that a description lists.

## Main Results

* `Element.eq_of_title_eq` — components are told apart by their titles.
* `Text.splitOn_join` — words without commas are told apart by the commas between them.
* `Pizza.finish_collect_listed` — a pizza is made of the components that are listed.
-/

namespace Pizzeria

/-! ### Titles -/

namespace Element

/-- The part of the pizza that the component covers; the base is the same all over. -/
def position : Element → Position
  | topping a => a.position
  | crust _ | sauce _ | cheese _ => .whole

/-- The component on another part of the pizza; the base stays as it is. -/
def moved (p : Position) : Element → Element
  | topping a => topping ⟨p, a.topping⟩
  | crust c => crust c
  | sauce s => sauce s
  | cheese c => cheese c

/-- The component on the whole pizza. -/
def whole (e : Element) : Element := e.moved .whole

/-- The name used in reports, without the position. -/
def plainTitle : Element → Text
  | topping a => a.topping.title
  | crust c => c.title
  | sauce s => s.title
  | cheese c => c.title

/-- The name used in reports. -/
def title (e : Element) : Text := e.plainTitle ++ e.position.suffix

/-- Every component on the whole pizza. -/
def wholes : List Element :=
  Crust.all.map crust ++ Sauce.all.map sauce ++ Cheese.all.map cheese ++
    Topping.all.map fun t => topping ⟨.whole, t⟩

/-- Every component is in the list once it is on the whole pizza, so the titles can be compared by
evaluating one list. -/
theorem whole_mem_wholes (e : Element) : e.whole ∈ wholes := by
  unfold wholes
  simp only [List.mem_append]
  cases e with
  | crust c => exact Or.inl (Or.inl (Or.inl (List.mem_map_of_mem (Crust.wordTable.complete c))))
  | sauce s => exact Or.inl (Or.inl (Or.inr (List.mem_map_of_mem (Sauce.wordTable.complete s))))
  | cheese c => exact Or.inl (Or.inr (List.mem_map_of_mem (Cheese.wordTable.complete c)))
  | topping a =>
      have listed := Topping.wordTable.complete a.topping
      exact Or.inr (List.mem_map_of_mem (f := fun t => topping ⟨.whole, t⟩) listed)

theorem plainTitle_whole (e : Element) : e.whole.plainTitle = e.plainTitle := by
  cases e <;> rfl

theorem moved_whole (e : Element) : e.whole.moved e.position = e := by
  cases e <;> rfl

/-- No two components have the same title, across all kinds.  One evaluation of the list settles
it for all pairs. -/
theorem nodup_plainTitle_wholes : (wholes.map plainTitle).Nodup := by decide +kernel

/-- Components of whatever kind are told apart by their titles, up to the position.  The kind is
not named in a description, so the titles have to do it. -/
theorem whole_eq_of_plainTitle_eq {e e' : Element} (same : e.plainTitle = e'.plainTitle) :
    e.whole = e'.whole := by
  apply List.inj_on_of_nodup_map nodup_plainTitle_wholes e.whole_mem_wholes e'.whole_mem_wholes
  rw [plainTitle_whole, plainTitle_whole, same]

/-- Titles have no comma, and no bracket before the position.  Commas separate the titles of a
description, and the bracket begins the position. -/
theorem plain_of_mem_plainTitle {e : Element} {c : Char} (mem : c ∈ e.plainTitle) :
    c ≠ ',' ∧ c ≠ '(' := by
  have plain : wholes.all (fun e => e.plainTitle.all fun c => c != ',' && c != '(') = true := by
    decide +kernel
  rw [← plainTitle_whole] at mem
  have here := List.all_eq_true.mp (List.all_eq_true.mp plain _ e.whole_mem_wholes) c mem
  simpa using here

theorem comma_notMem_title (e : Element) : ',' ∉ e.title := by
  rw [title, List.mem_append]
  rintro (mem | mem)
  · exact (plain_of_mem_plainTitle mem).1 rfl
  · revert mem
    cases e.position <;> decide

/-- What a title has from its first bracket on is the position, which is how it is read off a
title. -/
theorem dropWhile_title (e : Element) :
    e.title.dropWhile (· != '(') = e.position.suffix.tail := by
  rw [title, List.dropWhile_append_of_pos]
  · cases e.position <;> rfl
  · intro c mem
    simpa using (plain_of_mem_plainTitle mem).2

/-- A title names one component in one position only. -/
theorem eq_of_title_eq {e e' : Element} (same : e.title = e'.title) : e = e' := by
  have positions : e.position = e'.position := by
    have suffixes : e.position.suffix.tail = e'.position.suffix.tail := by
      rw [← dropWhile_title, ← dropWhile_title, same]
    revert suffixes
    cases e.position <;> cases e'.position <;> decide
  have titles : e.plainTitle = e'.plainTitle := by
    rw [title, title, positions] at same
    exact List.append_cancel_right same
  rw [← e.moved_whole, ← e'.moved_whole, whole_eq_of_plainTitle_eq titles, positions]

end Element

/-! ### Words -/

namespace Text

/-- Words without the separator are what stands between the separators, but for what follows
each separator. -/
theorem splitOn_join {sep : Char} {pad : Text} (inPad : sep ∉ pad) {first : Text}
    {others : List Text} (inFirst : sep ∉ first) (inOthers : ∀ word ∈ others, sep ∉ word) :
    (join (sep :: pad) (first :: others)).splitOn sep = first :: others.map (pad ++ ·) := by
  induction others generalizing first with
  | nil =>
      rw [join_singleton]
      exact List.splitOn_eq_singleton inFirst
  | cons second others ih =>
      obtain ⟨inSecond, inOthers⟩ := List.forall_mem_cons.mp inOthers
      rw [join_cons_cons, List.cons_append, List.splitOn_append_cons_self_of_not_mem inFirst,
        splitOn_append_of_notMem inPad (ih inSecond inOthers)]
      rfl

/-- Words without the separator can be read off the text that they are joined to. -/
theorem join_inj {sep : Char} {pad : Text} (inPad : sep ∉ pad) {words words' : List Text}
    (nonempty : words ≠ []) (nonempty' : words' ≠ []) (plain : ∀ word ∈ words, sep ∉ word)
    (plain' : ∀ word ∈ words', sep ∉ word)
    (same : join (sep :: pad) words = join (sep :: pad) words') : words = words' := by
  obtain ⟨first, others, rfl⟩ := List.exists_cons_of_ne_nil nonempty
  obtain ⟨first', others', rfl⟩ := List.exists_cons_of_ne_nil nonempty'
  obtain ⟨inFirst, inOthers⟩ := List.forall_mem_cons.mp plain
  obtain ⟨inFirst', inOthers'⟩ := List.forall_mem_cons.mp plain'
  have parts := congrArg (List.splitOn sep) same
  rw [splitOn_join inPad inFirst inOthers, splitOn_join inPad inFirst' inOthers'] at parts
  obtain ⟨rfl, rest⟩ := List.cons.inj parts
  have padded : Function.Injective (pad ++ · : Text → Text) := fun _ _ => List.append_cancel_left
  rw [List.map_injective_iff.mpr padded rest]

end Text

/-! ### Descriptions -/

namespace Pizza

/-- The component if it is shown: always if `always`, else when it is not the default. -/
def ifShown {α : Type} [DecidableEq α] (always : Bool) (value default : α)
    (make : α → Element) : List Element :=
  if always || value != default then [make value] else []

/-- The components that a description lists, in its order. -/
def listed (p : Pizza) (detail : Bool) : List Element :=
  let always := detail || p.toppings.isEmpty
  p.toppings.map .topping ++
    ifShown always p.cheese defaultCheese .cheese ++
    ifShown always p.sauce defaultSauce .sauce ++
    ifShown always p.crust defaultCrust .crust

/-- The titles of what is shown are what is shown of the titles.  Descriptions are made of titles,
and the proofs go by components. -/
theorem map_title_ifShown {α : Type} [DecidableEq α] (always : Bool) (value default : α)
    {make : α → Element} {name : α → Text} (titles : ∀ x, (make x).title = name x) :
    (ifShown always value default make).map Element.title = shown always value default name := by
  unfold ifShown shown
  split
  · rw [List.map_singleton, titles]
  · rfl

/-- The words of a description are the titles of what it lists, in the same order. -/
theorem words_eq (p : Pizza) (detail : Bool) :
    p.words detail = (p.listed detail).map Element.title := by
  unfold words listed
  simp only [List.map_append, List.map_map]
  rw [map_title_ifShown _ _ _ fun c => List.append_nil c.title,
    map_title_ifShown _ _ _ fun s => List.append_nil s.title,
    map_title_ifShown _ _ _ fun c => List.append_nil c.title]
  rfl

/-- Something is always listed: a pizza without toppings has its base described. -/
theorem listed_ne_nil (p : Pizza) (detail : Bool) : p.listed detail ≠ [] := by
  unfold listed
  cases none : p.toppings with
  | nil => simp [ifShown]
  | cons _ _ => simp

/-- A component that is not shown is at its default.  So leaving it out loses nothing. -/
theorem getD_findSome?_ifShown {α : Type} [DecidableEq α] (always : Bool) (value default : α)
    {make : α → Element} {pick : Element → Option α} (picks : pick (make value) = some value) :
    ((ifShown always value default make).findSome? pick).getD default = value := by
  unfold ifShown
  split
  · rw [List.findSome?_singleton, picks, Option.getD_some]
  · rename_i hidden
    simp only [Bool.or_eq_true, bne_iff_ne, not_or, not_not] at hidden
    exact hidden.2.symm

/-- What is shown of one kind of component is not mistaken for another kind. -/
theorem findSome?_ifShown_of_none {α β : Type} [DecidableEq α] (always : Bool) (value default : α)
    {make : α → Element} {pick : Element → Option β} (other : pick (make value) = none) :
    (ifShown always value default make).findSome? pick = none := by
  unfold ifShown
  split
  · rw [List.findSome?_singleton, other]
  · rfl

theorem filterMap_arrangement?_ifShown {α : Type} [DecidableEq α] (always : Bool)
    (value default : α) {make : α → Element} (base : (make value).arrangement? = none) :
    (ifShown always value default make).filterMap Element.arrangement? = [] := by
  unfold ifShown
  split
  · simp [base]
  · rfl

theorem findSome?_map_topping {α : Type} {pick : Element → Option α}
    (base : ∀ a, pick (.topping a) = none) (toppings : List Arrangement) :
    (toppings.map .topping).findSome? pick = none := by
  rw [List.findSome?_eq_none_iff]
  intro e mem
  obtain ⟨a, -, rfl⟩ := List.mem_map.mp mem
  exact base a

/-- A pizza is made of what its description lists, with the defaults for what is left out.  This
is the way back from a description to the pizza. -/
theorem finish_collect_listed (p : Pizza) (detail : Bool) :
    (Draft.collect (p.listed detail)).finish = p := by
  have crust : ((p.listed detail).findSome? Element.crust?).getD defaultCrust = p.crust := by
    simp only [listed, List.findSome?_append]
    rw [findSome?_map_topping fun _ => rfl, findSome?_ifShown_of_none _ _ _ rfl,
      findSome?_ifShown_of_none _ _ _ rfl]
    exact getD_findSome?_ifShown _ _ _ rfl
  have sauce : ((p.listed detail).findSome? Element.sauce?).getD defaultSauce = p.sauce := by
    simp only [listed, List.findSome?_append]
    rw [findSome?_map_topping fun _ => rfl, findSome?_ifShown_of_none _ _ _ rfl,
      findSome?_ifShown_of_none _ p.crust _ rfl, Option.or_none]
    exact getD_findSome?_ifShown _ _ _ rfl
  have cheese : ((p.listed detail).findSome? Element.cheese?).getD defaultCheese = p.cheese := by
    simp only [listed, List.findSome?_append]
    rw [findSome?_map_topping fun _ => rfl, findSome?_ifShown_of_none _ p.sauce _ rfl,
      findSome?_ifShown_of_none _ p.crust _ rfl, Option.or_none, Option.or_none]
    exact getD_findSome?_ifShown _ _ _ rfl
  have toppings : (p.listed detail).filterMap Element.arrangement? = p.toppings := by
    simp only [listed, List.filterMap_append]
    rw [filterMap_arrangement?_ifShown _ p.cheese _ rfl,
      filterMap_arrangement?_ifShown _ p.sauce _ rfl,
      filterMap_arrangement?_ifShown _ p.crust _ rfl, List.filterMap_map, List.append_nil,
      List.append_nil, List.append_nil]
    exact List.filterMap_some
  rw [Draft.finish, Draft.collect, crust, sauce, cheese, toppings]

/-- Descriptions of different pizzas differ, even if only one of them has all details.  The titles
are read off the text, the components off the titles, and the pizza off the components. -/
theorem eq_of_describe_eq {p q : Pizza} {detail detail' : Bool}
    (same : p.describe detail = q.describe detail') : p = q := by
  have joined : Text.join ", " (p.words detail) = Text.join ", " (q.words detail') :=
    List.append_cancel_right same
  rw [words_eq, words_eq] at joined
  have plain : ∀ es : List Element, ∀ word ∈ es.map Element.title, ',' ∉ word := by
    intro es word mem
    obtain ⟨e, -, rfl⟩ := List.mem_map.mp mem
    exact e.comma_notMem_title
  have titles : (p.listed detail).map Element.title = (q.listed detail').map Element.title := by
    refine @Text.join_inj ',' [' '] (by decide) _ _ ?_ ?_ (plain _) (plain _) joined
    · exact mt List.map_eq_nil_iff.mp (p.listed_ne_nil detail)
    · exact mt List.map_eq_nil_iff.mp (q.listed_ne_nil detail')
  have distinct : Function.Injective Element.title := fun _ _ => Element.eq_of_title_eq
  have components : p.listed detail = q.listed detail' :=
    List.map_injective_iff.mpr distinct titles
  rw [← p.finish_collect_listed detail, ← q.finish_collect_listed detail', components]

/-- **Descriptions identify pizzas.**  With all details or without, two pizzas are described by
the same line exactly if they have the same crust, sauce and cheese and the same toppings in the
same order.  So no two pizzas read the same because components at their defaults are left out. -/
theorem describe_exact (detail : Bool) (p q : Pizza) :
    p.describe detail = q.describe detail ↔
      p.crust = q.crust ∧ p.sauce = q.sauce ∧ p.cheese = q.cheese ∧ p.toppings = q.toppings := by
  constructor
  · intro same
    obtain rfl := eq_of_describe_eq same
    exact ⟨rfl, rfl, rfl, rfl⟩
  · rintro ⟨crust, sauce, cheese, toppings⟩
    have same : p = q := (Pizza.mk.injEq ..).mpr ⟨crust, sauce, cheese, toppings⟩
    rw [same]

end Pizza

end Pizzeria
