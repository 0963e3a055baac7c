import Mathlib.Data.Set.Card
import Mathlib.Logic.Relation

/-!
# The first of a kind along a way

Every element has at most one successor, and a way is followed until it comes to an element of a
kind or ends. On finitely many elements it does one or the other, unless it can go round and round
without meeting the kind.
-/

namespace TrainKernel.Library.FirstFound

variable {α : Type*}

section height

variable {r : α → α → Prop} {a b : α}

def Acyclic (r : α → α → Prop) : Prop := ∀ a, ¬Relation.TransGen r a a

/-- How many elements can be reached. -/
noncomputable def height (r : α → α → Prop) (a : α) : Nat := {b | Relation.TransGen r a b}.ncard

theorem Acyclic.mono {r' : α → α → Prop} (hAcyclic : Acyclic r) (h : ∀ a b, r' a b → r a b) :
    Acyclic r' := fun a hLoop => hAcyclic a (Relation.TransGen.mono h a a hLoop)

variable [Finite α] (hAcyclic : Acyclic r)
include hAcyclic

theorem height_lt (h : r a b) : height r b < height r a := by
  refine Set.ncard_lt_ncard ⟨fun c hc => ?_, fun hAll => ?_⟩ (Set.toFinite _)
  · exact Relation.TransGen.head h hc
  have hBack : Relation.TransGen r a b := Relation.TransGen.single h
  exact hAcyclic b (hAll hBack)

theorem height_lt_card (a : α) : height r a < Nat.card α := by
  rw [← Set.ncard_univ]
  refine Set.ncard_lt_ncard ⟨Set.subset_univ _, fun hAll => ?_⟩ (Set.toFinite _)
  exact hAcyclic a (hAll (Set.mem_univ a))

theorem height_induction {P : α → Prop} (hStep : ∀ a, (∀ b, r a b → P b) → P a) (a : α) : P a := by
  induction hHeight : height r a using Nat.strong_induction_on generalizing a with
  | _ n ih =>
    apply hStep a
    intro b hb
    exact ih (height r b) (hHeight ▸ height_lt hAcyclic hb) b rfl

end height

/-- A relation that a rank follows has no cycle. -/
theorem acyclic_of_rank {r : α → α → Prop} (rank : α → Nat)
    (hRank : ∀ a b, r a b → rank a < rank b) : Acyclic r := by
  intro a hLoop
  have hLess : ∀ b, Relation.TransGen r a b → rank a < rank b := by
    intro b hb
    induction hb with
    | single h => exact hRank _ _ h
    | tail _ h ih => exact ih.trans (hRank _ _ h)
  exact lt_irrefl _ (hLess a hLoop)

variable (next : α → Option α) (found : α → Prop)

/-- What is found from an element on, the element included; `none` if the way ends before. -/
inductive First : α → Option α → Prop
  | here {a : α} : found a → First a (some a)
  | nowhere {a : α} : ¬found a → next a = none → First a none
  | later {a b : α} {o : Option α} : ¬found a → next a = some b → First b o → First a o

variable {next found} {a b : α} {o o' : Option α}

theorem First.unique (h : First next found a o) (h' : First next found a o') : o = o' := by
  induction h with
  | here hFound =>
    cases h' with
    | here => rfl
    | nowhere hNot => exact absurd hFound hNot
    | later hNot => exact absurd hFound hNot
  | nowhere hNot hEnd =>
    cases h' with
    | here hFound => exact absurd hFound hNot
    | nowhere => rfl
    | later _ hNext => cases hEnd.symm.trans hNext
  | later hNot hNext _ ih =>
    cases h' with
    | here hFound => exact absurd hFound hNot
    | nowhere _ hEnd => cases hEnd.symm.trans hNext
    | later _ hNext' hRest =>
      obtain rfl := Option.some.inj (hNext.symm.trans hNext')
      exact ih hRest

theorem First.of_some (h : First next found a (some b)) : found b := by
  generalize hEq : some b = o at h
  induction h with
  | here hFound =>
    cases hEq
    exact hFound
  | nowhere => cases hEq
  | later _ _ _ ih => exact ih hEq

section kinds

variable {found' : α → Prop} (hSub : ∀ a, found a → found' a)
include hSub

/-- A way that comes to none of a larger kind comes to none of a smaller one. -/
theorem First.none_of_subset (h : First next found' a none) : First next found a none := by
  generalize hEq : none = o at h
  induction h with
  | here => cases hEq
  | nowhere hNot hEnd => exact .nowhere (mt (hSub _) hNot) hEnd
  | later hNot hNext _ ih => exact .later (mt (hSub _) hNot) hNext (ih hEq)

/-- The search for a smaller kind can go on where a larger kind is first found. -/
theorem First.resume (h : First next found' a (some b)) (h' : First next found b o) :
    First next found a o := by
  generalize hEq : some b = o' at h
  induction h with
  | here =>
    cases hEq
    exact h'
  | nowhere => cases hEq
  | later hNot hNext _ ih => exact .later (mt (hSub _) hNot) hNext (ih hEq)

end kinds

/-- Without a cycle that misses the kind every way comes to an end. -/
theorem exists_first [Finite α] (hAcyclic : Acyclic fun a b => ¬found a ∧ next a = some b) (a : α) :
    ∃ o, First next found a o := by
  induction a using height_induction hAcyclic with
  | _ a ih =>
    by_cases hFound : found a
    · exact ⟨some a, .here hFound⟩
    · cases hNext : next a with
      | none => exact ⟨none, .nowhere hFound hNext⟩
      | some b =>
        obtain ⟨o, hFirst⟩ := ih b ⟨hFound, hNext⟩
        exact ⟨o, .later hFound hNext hFirst⟩

end TrainKernel.Library.FirstFound
