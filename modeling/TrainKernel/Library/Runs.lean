import Mathlib.Data.List.Basic

/-!
# Runs of a machine

A machine takes one input at a time, and it may put something out. The history of a run is the
list of its inputs, each with what came out for it. What may come next can depend on the history
and on the state.
-/

namespace TrainKernel.Library.Runs

variable {σ ι ω : Type*}

structure Machine (σ ι ω : Type*) where
  start : σ
  step : σ → ι → σ → ω → Prop

abbrev History (ι ω : Type*) := List (ι × ω)

variable {m : Machine σ ι ω} {allowed : History ι ω → σ → ι → Prop}
variable {h : History ι ω} {s s' : σ} {i : ι} {o : ω}

inductive Machine.Run (m : Machine σ ι ω) (allowed : History ι ω → σ → ι → Prop) :
    History ι ω → σ → Prop
  | start : m.Run allowed [] m.start
  | next {h : History ι ω} {s s' : σ} {i : ι} {o : ω} (hRun : m.Run allowed h s)
      (hAllowed : allowed h s i) (hStep : m.step s i s' o) : m.Run allowed (h ++ [(i, o)]) s'

/-- What has been taken in and not been given away yet is held, if every step balances. -/
theorem balance_concat {α : Type*} {taken given held took gave held' : List α}
    (h : taken = given ++ held) (hStep : held ++ took = gave ++ held') :
    taken ++ took = given ++ gave ++ held' := by
  rw [h, List.append_assoc, hStep, List.append_assoc]

namespace Machine.Run

/-- A property of history and state that holds at the start and that every step keeps. -/
theorem invariant (hRun : m.Run allowed h s) (Inv : History ι ω → σ → Prop)
    (hStart : Inv [] m.start) (hStep : ∀ h s i s' o, Inv h s → allowed h s i →
      m.step s i s' o → Inv (h ++ [(i, o)]) s') : Inv h s := by
  induction hRun with
  | start => exact hStart
  | next _ hAllowed hNext ih => exact hStep _ _ _ _ _ ih hAllowed hNext

/-- Each entry of the history was written by a step, after a run that wrote what is before it. -/
theorem split {before : History ι ω} (hRun : m.Run allowed h s)
    (hBefore : before ++ [(i, o)] <+: h) :
    ∃ s₁ s₂, m.Run allowed before s₁ ∧ allowed before s₁ i ∧ m.step s₁ i s₂ o := by
  induction hRun with
  | start => simp at hBefore
  | next hRun hAllowed hNext ih =>
    cases List.prefix_concat_iff.mp hBefore with
    | inl hLast =>
      obtain ⟨rfl, hRound⟩ := List.append_inj' hLast rfl
      obtain ⟨rfl, rfl⟩ := Prod.mk.inj (List.singleton_inj.mp hRound)
      exact ⟨_, _, hRun, hAllowed, hNext⟩
    | inr hEarlier => exact ih hEarlier

/-- What a run does to a part of the state is a run of another machine, if each step is one step
there or none. -/
theorem project {σ' ι' ω' : Type*} {m' : Machine σ' ι' ω'}
    {allowed' : History ι' ω' → σ' → ι' → Prop} (part : σ → σ')
    (rounds : ι × ω → List (ι' × ω')) (hStart : part m.start = m'.start)
    (hStep : ∀ h s i s' o, allowed h s i → m.step s i s' o →
      rounds (i, o) = [] ∧ part s' = part s ∨
      ∃ i' o', rounds (i, o) = [(i', o')] ∧ allowed' (h.flatMap rounds) (part s) i' ∧
        m'.step (part s) i' (part s') o')
    (hRun : m.Run allowed h s) : m'.Run allowed' (h.flatMap rounds) (part s) := by
  induction hRun with
  | start =>
    rw [hStart]
    exact .start
  | next hRun hAllowed hNext ih =>
    rw [List.flatMap_append, List.flatMap_singleton]
    rcases hStep _ _ _ _ _ hAllowed hNext with ⟨hNone, hSame⟩ | ⟨i', o', hOne, hAllowed', hNext'⟩
    · rw [hNone, hSame, List.append_nil]
      exact ih
    · rw [hOne]
      exact ih.next hAllowed' hNext'

end Machine.Run

end TrainKernel.Library.Runs
