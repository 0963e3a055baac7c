import TrainKernel.Library.Runs
import TrainKernel.User.Heap

/-!
# Sequences of heap operations

What comes out of a heap and what is left in it are the values that went in, and a value that
comes out is a cheapest one of those that were left.
-/

namespace TrainKernel.User.Heap

open Library.Runs

variable {α : Type}

inductive Call (α : Type) where
  | push (value : α)
  | pop
deriving DecidableEq

def Call.pushed : Call α → Option α
  | .push value => some value
  | .pop => none

/-- A call that returns, with what it returns. -/
inductive Returns (valueFunc : α → Int) (height : Nat) :
    Heap α → Call α → Heap α → Option α → Prop
  | push {h h' : Heap α} {value : α} : push valueFunc height h value = some h' →
      Returns valueFunc height h (.push value) h' none
  | pop {h h' : Heap α} {value : α} : pop valueFunc h = some (value, h') →
      Returns valueFunc height h .pop h' (some value)

/-- At first the heap is empty, whatever is in its slots. -/
def machine (valueFunc : α → Int) (height : Nat) (slots : Nat → α) :
    Machine (Heap α) (Call α) (Option α) where
  start := ⟨slots, 0⟩
  step := Returns valueFunc height

abbrev Calls (α : Type) := History (Call α) (Option α)

def pushed (calls : Calls α) : Multiset α := calls.filterMap fun call => call.1.pushed

def popped (calls : Calls α) : Multiset α := calls.filterMap Prod.snd

/-- The next call neither pops from an empty heap nor pushes onto a full one. -/
def Fits (height : Nat) (calls : Calls α) (_ : Heap α) : Call α → Prop
  | .push _ => (pushed calls).card < (popped calls).card + 2 ^ height
  | .pop => (popped calls).card < (pushed calls).card

variable {valueFunc : α → Int} {height : Nat} {slots : Nat → α} {calls : Calls α} {h : Heap α}

theorem pushed_push (calls : Calls α) (value : α) (result : Option α) :
    pushed (calls ++ [(.push value, result)]) = value ::ₘ pushed calls := by
  rw [pushed, List.filterMap_append, ← Multiset.coe_add, Multiset.add_comm]
  rfl

theorem pushed_pop (calls : Calls α) (result : Option α) :
    pushed (calls ++ [(.pop, result)]) = pushed calls := by
  rw [pushed, List.filterMap_append, ← Multiset.coe_add]
  exact Multiset.add_zero _

theorem popped_some (calls : Calls α) (call : Call α) (value : α) :
    popped (calls ++ [(call, some value)]) = value ::ₘ popped calls := by
  rw [popped, List.filterMap_append, ← Multiset.coe_add, Multiset.add_comm]
  rfl

theorem popped_none (calls : Calls α) (call : Call α) :
    popped (calls ++ [(call, none)]) = popped calls := by
  rw [popped, List.filterMap_append, ← Multiset.coe_add]
  exact Multiset.add_zero _

/-- After the calls the heap is in order, and what was pushed and not popped is in it. -/
structure Keeps (valueFunc : α → Int) (calls : Calls α) (h : Heap α) : Prop where
  ordered : Ordered valueFunc h
  balance : pushed calls = popped calls + h.content

theorem Keeps.card (hKeeps : Keeps valueFunc calls h) :
    (pushed calls).card = (popped calls).card + h.count := by
  rw [hKeeps.balance, Multiset.card_add, card_content]

theorem Keeps.returns (hKeeps : Keeps valueFunc calls h) {call : Call α}
    (hFits : Fits height calls h call) :
    ∃ h' result, Returns valueFunc height h call h' result := by
  have hCard := hKeeps.card
  cases call with
  | push value =>
    have hRoom : h.count < 2 ^ height := by
      change (pushed calls).card < _ at hFits
      omega
    obtain ⟨h', hPush, -⟩ := push_spec hKeeps.ordered hRoom value
    exact ⟨h', none, .push hPush⟩
  | pop =>
    have hCount : 0 < h.count := by
      change _ < (pushed calls).card at hFits
      omega
    obtain ⟨value, h', hPop, -⟩ := pop_spec hKeeps.ordered hCount
    exact ⟨h', some value, .pop hPop⟩

theorem count_pos_of_pop {h' : Heap α} {value : α} (hPop : pop valueFunc h = some (value, h')) :
    0 < h.count := by
  rw [pop] at hPop
  split_ifs at hPop with hCount
  exact hCount

theorem count_lt_of_push {h' : Heap α} {value : α}
    (hPush : push valueFunc height h value = some h') : h.count < 2 ^ height := by
  rw [push] at hPush
  split_ifs at hPush with hCount
  exact hCount

theorem Keeps.pop_minimal (hKeeps : Keeps valueFunc calls h) {h' : Heap α} {value : α}
    (hPop : pop valueFunc h = some (value, h')) :
    value ∈ h.content ∧ ∀ other ∈ h.content, valueFunc value ≤ valueFunc other := by
  obtain ⟨v, g, hSpec, hContent, -, hMin⟩ := pop_spec hKeeps.ordered (count_pos_of_pop hPop)
  obtain ⟨rfl, rfl⟩ := Prod.mk.inj (Option.some.inj (hSpec.symm.trans hPop))
  rw [hContent]
  refine ⟨Multiset.mem_cons_self v _, fun other hOther => ?_⟩
  cases Multiset.mem_cons.mp hOther with
  | inl hSame => rw [hSame]
  | inr hRest => exact hMin other hRest

theorem Keeps.step (hKeeps : Keeps valueFunc calls h) {call : Call α} {h' : Heap α}
    {result : Option α} (hStep : Returns valueFunc height h call h' result) :
    Keeps valueFunc (calls ++ [(call, result)]) h' := by
  cases hStep with
  | @push _ value hPush =>
    obtain ⟨g, hSpec, hContent, hOrdered⟩ :=
      push_spec hKeeps.ordered (count_lt_of_push hPush) value
    obtain rfl : g = h' := Option.some.inj (hSpec.symm.trans hPush)
    refine ⟨hOrdered, ?_⟩
    rw [pushed_push, popped_none, hContent, hKeeps.balance, Multiset.add_cons]
  | @pop _ value hPop =>
    obtain ⟨v, g, hSpec, hContent, hOrdered, -⟩ :=
      pop_spec hKeeps.ordered (count_pos_of_pop hPop)
    obtain ⟨rfl, rfl⟩ := Prod.mk.inj (Option.some.inj (hSpec.symm.trans hPop))
    refine ⟨hOrdered, ?_⟩
    rw [pushed_pop, popped_some, hKeeps.balance, hContent, Multiset.add_cons, Multiset.cons_add]

theorem keeps_of_run (hRun : (machine valueFunc height slots).Run (Fits height) calls h) :
    Keeps valueFunc calls h := by
  refine hRun.invariant (Keeps valueFunc) ⟨?_, ?_⟩ ?_
  · intro i hi hCount
    exact absurd (hi.trans hCount : 2 ≤ 0) (by decide)
  · rfl
  · intro calls h call h' result hKeeps _ hStep
    exact hKeeps.step hStep

/-- The heap is a priority queue, as long as it is never popped empty nor pushed beyond its
height. -/
theorem priority_queue (valueFunc : α → Int) (height : Nat) (slots : Nat → α) {calls : Calls α}
    {h : Heap α} (hRun : (machine valueFunc height slots).Run (Fits height) calls h) :
    Ordered valueFunc h ∧ pushed calls = popped calls + h.content ∧
    (∀ before value, before ++ [(.pop, some value)] <+: calls → ∃ present,
      pushed before = popped before + present ∧ value ∈ present ∧
        ∀ other ∈ present, valueFunc value ≤ valueFunc other) ∧
    ∀ call, Fits height calls h call → ∃ h' result, Returns valueFunc height h call h' result := by
  have hKeeps := keeps_of_run hRun
  refine ⟨hKeeps.ordered, hKeeps.balance, ?_, fun call hFits => hKeeps.returns hFits⟩
  intro before value hBefore
  obtain ⟨g, g', hEarlier, -, hStep⟩ := hRun.split hBefore
  have hThen := keeps_of_run hEarlier
  cases hStep with
  | pop hPop => exact ⟨g.content, hThen.balance, hThen.pop_minimal hPop⟩

/-- Three numbers go in and the least comes out. -/
def threePushes : Calls Int :=
  [(.push 3, none), (.push 1, none), (.push 2, none), (.pop, some 1)]

theorem priority_queue_three : ∃ h : Heap Int, Ordered id h ∧
    pushed threePushes = popped threePushes + h.content ∧ ∃ present,
      ({3, 1, 2} : Multiset Int) = present ∧ 1 ∈ present ∧ ∀ other ∈ present, 1 ≤ other := by
  have hStart : (machine id 2 fun _ => (0 : Int)).Run (Fits 2) [] _ := .start
  have hFirst := hStart.next (i := Call.push 3) (show 0 < 0 + 2 ^ 2 by decide) (Returns.push rfl)
  have hSecond := hFirst.next (i := Call.push 1) (show 1 < 0 + 2 ^ 2 by decide) (Returns.push rfl)
  have hThird := hSecond.next (i := Call.push 2) (show 2 < 0 + 2 ^ 2 by decide) (Returns.push rfl)
  have hRun := hThird.next (i := Call.pop) (o := some 1) (show 0 < 3 by decide) (Returns.pop rfl)
  obtain ⟨hOrdered, hBalance, hPops, -⟩ := priority_queue id 2 (fun _ => 0) hRun
  obtain ⟨present, hPresent, hMem, hMin⟩ := hPops _ 1 (List.prefix_refl _)
  exact ⟨_, hOrdered, hBalance, present, hPresent.trans (Multiset.zero_add present), hMem, hMin⟩

end TrainKernel.User.Heap
