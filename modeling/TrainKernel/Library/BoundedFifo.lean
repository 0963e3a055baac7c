import Mathlib.Data.List.Basic

/-!
# Bounded queues

The abstract queue is a list with its oldest element in front. A push that finds no room drops
all that the queue holds, and it says so. An implementation refines it through a view of its state
on the states that keep an invariant.
-/

namespace TrainKernel.Library.BoundedFifo

variable {α ρ σ τ : Type*}

inductive Call (α : Type*) where
  | push (x : α)
  | pop
  | isEmpty
  | clear

inductive Answer (ρ : Type*) where
  | pushed (status : Int)
  | popped (result : ρ)
  | emptiness (value : Bool)
  | cleared
deriving DecidableEq

/-- A queue of elements in `α`, with states in `σ`; what a pop gives is in `ρ`. -/
structure Operations (α ρ σ : Type*) where
  push : σ → α → σ × Int
  pop : σ → ρ × σ
  isEmpty : σ → Bool
  clear : σ → σ

namespace Operations

def step (ops : Operations α ρ σ) (s : σ) : Call α → Answer ρ × σ
  | .push x => (.pushed (ops.push s x).2, (ops.push s x).1)
  | .pop => (.popped (ops.pop s).1, (ops.pop s).2)
  | .isEmpty => (.emptiness (ops.isEmpty s), s)
  | .clear => (.cleared, ops.clear s)

def run (ops : Operations α ρ σ) : List (Call α) → σ → List (Answer ρ) × σ
  | [], s => ([], s)
  | call :: calls, s =>
    ((ops.step s call).1 :: (ops.run calls (ops.step s call).2).1,
      (ops.run calls (ops.step s call).2).2)

end Operations

/-- The abstract queue; `yield` says what a pop gives for the element it finds. -/
def fifo (capacity : Nat) (yield : Option α → ρ) : Operations α ρ (List α) where
  push queue x := if queue.length < capacity then (queue ++ [x], 0) else ([x], -1)
  pop queue := (yield queue.head?, queue.tail)
  isEmpty queue := queue.isEmpty
  clear _ := []

/-- Each operation keeps the invariant, answers as the specification does, and has the same
effect on the view. -/
structure Refines (ops : Operations α ρ σ) (spec : Operations α ρ τ) (Inv : σ → Prop)
    (view : σ → τ) : Prop where
  push : ∀ s x, Inv s → Inv (ops.push s x).1 ∧
    view (ops.push s x).1 = (spec.push (view s) x).1 ∧
    (ops.push s x).2 = (spec.push (view s) x).2
  pop : ∀ s, Inv s → Inv (ops.pop s).2 ∧ view (ops.pop s).2 = (spec.pop (view s)).2 ∧
    (ops.pop s).1 = (spec.pop (view s)).1
  isEmpty : ∀ s, Inv s → ops.isEmpty s = spec.isEmpty (view s)
  clear : ∀ s, Inv s → Inv (ops.clear s) ∧ view (ops.clear s) = spec.clear (view s)

namespace Refines

variable {ops : Operations α ρ σ} {spec : Operations α ρ τ} {Inv : σ → Prop} {view : σ → τ}
variable {s : σ}

theorem step (h : Refines ops spec Inv view) (hInv : Inv s) (call : Call α) :
    Inv (ops.step s call).2 ∧ view (ops.step s call).2 = (spec.step (view s) call).2 ∧
      (ops.step s call).1 = (spec.step (view s) call).1 := by
  cases call with
  | push x =>
    obtain ⟨hKept, hView, hStatus⟩ := h.push s x hInv
    exact ⟨hKept, hView, congrArg Answer.pushed hStatus⟩
  | pop =>
    obtain ⟨hKept, hView, hResult⟩ := h.pop s hInv
    exact ⟨hKept, hView, congrArg Answer.popped hResult⟩
  | isEmpty => exact ⟨hInv, rfl, congrArg Answer.emptiness (h.isEmpty s hInv)⟩
  | clear =>
    obtain ⟨hKept, hView⟩ := h.clear s hInv
    exact ⟨hKept, hView, rfl⟩

theorem run (h : Refines ops spec Inv view) (hInv : Inv s) (calls : List (Call α)) :
    Inv (ops.run calls s).2 ∧ view (ops.run calls s).2 = (spec.run calls (view s)).2 ∧
      (ops.run calls s).1 = (spec.run calls (view s)).1 := by
  induction calls generalizing s with
  | nil => exact ⟨hInv, rfl, rfl⟩
  | cons call calls ih =>
    obtain ⟨hKept, hView, hAnswer⟩ := h.step hInv call
    obtain ⟨hEnd, hEndView, hAnswers⟩ := ih hKept
    rw [hView] at hEndView hAnswers
    refine ⟨hEnd, hEndView, ?_⟩
    rw [Operations.run, Operations.run, hAnswer, hAnswers]

end Refines

end TrainKernel.Library.BoundedFifo
