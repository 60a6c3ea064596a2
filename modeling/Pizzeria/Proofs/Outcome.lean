import Mathlib.Data.List.Forall2

/-!
# Outcomes

Laws of computations that may be refused: where the answer of a composite
computation comes from, and where its refusal does.

## Main Definitions

* `Except.Rel` — two outcomes are alike.

## Main Results

* `Except.mapM_eq_ok_iff` — a list goes through if all its members do.
* `Except.mapM_eq_error_iff` — the first member that is refused refuses the list.
* `Except.Rel.bind`, `Except.Rel.mapM` — computations side by side stay side by side.
-/

namespace Except

universe u

variable {ε α β : Type u}

instance decidableEq [DecidableEq ε] [DecidableEq α] : DecidableEq (Except ε α)
  | .ok a, .ok b => decidable_of_iff (a = b) ⟨congrArg ok, ok.inj⟩
  | .error d, .error e => decidable_of_iff (d = e) ⟨congrArg error, error.inj⟩
  | .ok _, .error _ => isFalse nofun
  | .error _, .ok _ => isFalse nofun

theorem map_eq_ok_iff {f : α → β} {x : Except ε α} {b : β} :
    x.map f = .ok b ↔ ∃ a, x = .ok a ∧ f a = b := by
  cases x <;> simp [Except.map]

theorem map_eq_error_iff {f : α → β} {x : Except ε α} {e : ε} :
    x.map f = .error e ↔ x = .error e := by
  cases x <;> simp [Except.map]

/-- Work in two steps succeeds exactly if both steps do.  Reading a program is such work, and most
proofs take it apart with this. -/
theorem bind_eq_ok_iff {x : Except ε α} {f : α → Except ε β} {b : β} :
    x >>= f = .ok b ↔ ∃ a, x = .ok a ∧ f a = .ok b := by
  cases x <;> simp [bind, Except.bind]

/-- Work in two steps is refused by the first step, or by the second behind a first that
succeeded.  The stages of reading are told apart that way. -/
theorem bind_eq_error_iff {x : Except ε α} {f : α → Except ε β} {e : ε} :
    x >>= f = .error e ↔ x = .error e ∨ ∃ a, x = .ok a ∧ f a = .error e := by
  cases x <;> simp [bind, Except.bind]

/-- A search that is refused where nothing is found succeeds exactly if something is. -/
theorem elim_eq_ok_iff {o : Option α} {e : ε} {f : α → Except ε β} {b : β} :
    o.elim (.error e) f = .ok b ↔ ∃ a, o = some a ∧ f a = .ok b := by
  cases o <;> simp

theorem mapM_cons_eq_ok {f : α → Except ε β} {a : α} {b : β} {as : List α} {bs : List β}
    (head : f a = .ok b) (tail : as.mapM f = .ok bs) : (a :: as).mapM f = .ok (b :: bs) := by
  rw [List.mapM_cons, head, tail]
  rfl

/-- A list goes through if each of its members does, with the answers in the order of the
members. -/
theorem mapM_eq_ok_iff {f : α → Except ε β} {as : List α} {bs : List β} :
    as.mapM f = .ok bs ↔ List.Forall₂ (fun a b => f a = .ok b) as bs := by
  constructor
  · intro h
    induction as generalizing bs with
    | nil =>
        cases h
        exact .nil
    | cons a as ih =>
        rw [List.mapM_cons, bind_eq_ok_iff] at h
        obtain ⟨b, head, h⟩ := h
        rw [bind_eq_ok_iff] at h
        obtain ⟨tail, rest, h⟩ := h
        cases h
        exact .cons head (ih rest)
  · intro h
    induction h with
    | nil => rfl
    | cons head _ ih => exact mapM_cons_eq_ok head ih

/-- A list that goes through does so part by part.  This cuts a decoded source in two at a
lexeme. -/
theorem mapM_append_eq_ok_iff {f : α → Except ε β} {as as' : List α} {bs : List β} :
    (as ++ as').mapM f = .ok bs ↔
      ∃ front back, as.mapM f = .ok front ∧ as'.mapM f = .ok back ∧ front ++ back = bs := by
  rw [List.mapM_append]
  cases as.mapM f <;> cases as'.mapM f <;> simp [bind, Except.bind, pure, Except.pure]

/-- Each member of a list that goes through has an answer, so nothing is passed over. -/
theorem exists_of_mem_of_mapM {f : α → Except ε β} {as : List α} {bs : List β}
    (h : as.mapM f = .ok bs) {a : α} (mem : a ∈ as) : ∃ b ∈ bs, f a = .ok b := by
  induction mapM_eq_ok_iff.mp h with
  | nil => cases mem
  | @cons a' b as bs head tail ih =>
      rcases List.mem_cons.mp mem with rfl | mem
      · exact ⟨b, List.mem_cons_self, head⟩
      · obtain ⟨b', mem, answer⟩ := ih (mapM_eq_ok_iff.mpr tail) mem
        exact ⟨b', List.mem_cons_of_mem b mem, answer⟩

/-- Each answer of a list that goes through is that of a member, so nothing is made up. -/
theorem exists_of_mem_mapM {f : α → Except ε β} {as : List α} {bs : List β}
    (h : as.mapM f = .ok bs) {b : β} (mem : b ∈ bs) : ∃ a ∈ as, f a = .ok b := by
  induction mapM_eq_ok_iff.mp h with
  | nil => cases mem
  | @cons a b' as bs head tail ih =>
      rcases List.mem_cons.mp mem with rfl | mem
      · exact ⟨a, List.mem_cons_self, head⟩
      · obtain ⟨a', mem, answer⟩ := ih (mapM_eq_ok_iff.mpr tail) mem
        exact ⟨a', List.mem_cons_of_mem a mem, answer⟩

/-- A list goes through if each of its members has an answer. -/
theorem exists_mapM_eq_ok {f : α → Except ε β} {as : List α}
    (through : ∀ a ∈ as, ∃ b, f a = .ok b) : ∃ bs, as.mapM f = .ok bs := by
  induction as with
  | nil => exact ⟨[], rfl⟩
  | cons a as ih =>
      obtain ⟨b, head⟩ := through a List.mem_cons_self
      obtain ⟨bs, tail⟩ := ih fun a' mem => through a' (List.mem_cons_of_mem a mem)
      exact ⟨b :: bs, mapM_cons_eq_ok head tail⟩

/-- The first member that is refused refuses the list.  Those before it have gone through, and
those behind it are not looked at. -/
theorem mapM_eq_error_iff {f : α → Except ε β} {as : List α} {e : ε} :
    as.mapM f = .error e ↔
      ∃ before a behind bs, as = before ++ a :: behind ∧ before.mapM f = .ok bs ∧
        f a = .error e := by
  constructor
  · intro h
    induction as with
    | nil => cases h
    | cons a as ih =>
        rw [List.mapM_cons, bind_eq_error_iff] at h
        rcases h with refused | ⟨b, head, h⟩
        · exact ⟨[], a, as, [], rfl, rfl, refused⟩
        · rw [bind_eq_error_iff] at h
          rcases h with refused | ⟨bs, _, h⟩
          · obtain ⟨before, x, behind, bs, rfl, through, refused⟩ := ih refused
            exact ⟨a :: before, x, behind, b :: bs, rfl, mapM_cons_eq_ok head through, refused⟩
          · cases h
  · rintro ⟨before, a, behind, bs, rfl, through, refused⟩
    rw [List.mapM_append, through, List.mapM_cons, refused]
    rfl

/-! ### Outcomes side by side -/

section Rel

universe v

variable {ε' α' β' : Type v}

/-- Both outcomes are answers that `R` relates, or both are refusals that `E` relates. -/
inductive Rel (E : ε → ε' → Prop) (R : α → α' → Prop) : Except ε α → Except ε' α' → Prop where
  | ok {a : α} {b : α'} (answers : R a b) : Rel E R (.ok a) (.ok b)
  | error {d : ε} {e : ε'} (refusals : E d e) : Rel E R (.error d) (.error e)

namespace Rel

variable {E : ε → ε' → Prop} {R : α → α' → Prop} {S : β → β' → Prop}
  {x : Except ε α} {y : Except ε' α'}

theorem of_eq {x y : Except ε α} {E : ε → ε → Prop} (refl : ∀ d, E d d) (same : x = y) :
    Rel E Eq x y := by
  subst same
  cases x with
  | ok a => exact .ok rfl
  | error d => exact .error (refl d)

theorem eq {x y : Except ε α} (alike : Rel Eq Eq x y) : x = y := by
  cases alike with
  | ok answers => rw [answers]
  | error refusals => rw [refusals]

/-- Work that takes the same branch is alike if both branches are.  The conditions may be about
different texts, if they come to the same. -/
theorem ite {p q : Prop} [Decidable p] [Decidable q] {x' : Except ε α} {y' : Except ε' α'}
    (same : p ↔ q) (yes : Rel E R x y) (no : Rel E R x' y') :
    Rel E R (if p then x else x') (if q then y else y') := by
  by_cases holds : p
  · rw [if_pos holds, if_pos (same.mp holds)]
    exact yes
  · rw [if_neg holds, if_neg (mt same.mpr holds)]
    exact no

/-- What is made of answers that are alike is alike, if making it keeps them so. -/
theorem map {f : α → β} {g : α' → β'} (alike : Rel E R x y)
    (step : ∀ a b, R a b → S (f a) (g b)) : Rel E S (x.map f) (y.map g) := by
  cases alike with
  | ok answers => exact .ok (step _ _ answers)
  | error refusals => exact .error refusals

/-- Work that is done in steps is alike if each step is.  With this, a fact about each stage of
reading becomes one about reading. -/
theorem bind {f : α → Except ε β} {g : α' → Except ε' β'} (alike : Rel E R x y)
    (step : ∀ a b, R a b → Rel E S (f a) (g b)) : Rel E S (x >>= f) (y >>= g) := by
  cases alike with
  | ok answers => exact step _ _ answers
  | error refusals => exact .error refusals

/-- Work on a list is alike if it is for each member.  The first member that is refused has the
same place in both lists. -/
theorem mapM {f : α → Except ε β} {g : α' → Except ε' β'} {as : List α} {bs : List α'}
    (alike : List.Forall₂ R as bs) (step : ∀ a b, R a b → Rel E S (f a) (g b)) :
    Rel E (List.Forall₂ S) (as.mapM f) (bs.mapM g) := by
  induction alike with
  | nil => exact .ok .nil
  | cons head _ ih =>
      rw [List.mapM_cons, List.mapM_cons]
      refine (step _ _ head).bind fun _ _ first => ?_
      exact ih.bind fun _ _ others => .ok (.cons first others)

end Rel

end Rel

end Except
