import Mathlib.Logic.Basic

/-!
# Computations that can fail

A computation ends well if it does not fail with a bad fault and its result, if it has one,
meets a postcondition. The rules follow the structure of the computation.
-/

namespace TrainKernel.Library.Outcome

universe u v

variable {ε : Type u} {α β : Type v} {bad bad' : ε → Prop} {P Q : α → Prop} {R : β → Prop}

/-- A computation in two steps has a result only if both have. -/
theorem exists_of_bind_eq_ok {x : Except ε α} {f : α → Except ε β} {b : β}
    (h : (x >>= f) = .ok b) : ∃ a, x = .ok a ∧ f a = .ok b := by
  cases x with
  | ok a => exact ⟨a, rfl, h⟩
  | error fault => cases h

theorem exists_of_map_eq_ok {x : Except ε α} {f : α → β} {b : β} (h : x.map f = .ok b) :
    ∃ a, x = .ok a ∧ f a = b := by
  cases x with
  | ok a => exact ⟨a, rfl, Except.ok.inj h⟩
  | error fault => cases h

def EndsWell (bad : ε → Prop) (P : α → Prop) : Except ε α → Prop
  | .ok a => P a
  | .error fault => ¬bad fault

namespace EndsWell

variable {x : Except ε α}

theorem ok {a : α} (h : P a) : EndsWell bad P (.ok a : Except ε α) := h

theorem pure {a : α} (h : P a) : EndsWell bad P (Pure.pure a : Except ε α) := h

theorem error {fault : ε} (h : ¬bad fault) : EndsWell bad P (.error fault : Except ε α) := h

theorem bind {f : α → Except ε β} (h : EndsWell bad P x)
    (hf : ∀ a, P a → EndsWell bad R (f a)) : EndsWell bad R (x >>= f) := by
  cases x with
  | ok a => exact hf a h
  | error fault => exact h

theorem mono (h : EndsWell bad P x) (hPQ : ∀ a, P a → Q a) : EndsWell bad Q x := by
  cases x with
  | ok a => exact hPQ a h
  | error fault => exact h

theorem weaken (h : EndsWell bad P x) (hBad : ∀ fault, bad' fault → bad fault) :
    EndsWell bad' P x := by
  cases x with
  | ok a => exact h
  | error fault => exact mt (hBad fault) h

theorem ite {c : Prop} [Decidable c] {y : Except ε α} (hx : c → EndsWell bad P x)
    (hy : ¬c → EndsWell bad P y) : EndsWell bad P (if c then x else y) := by
  by_cases h : c
  · rw [if_pos h]
    exact hx h
  · rw [if_neg h]
    exact hy h

theorem and (h : EndsWell bad P x) (h' : EndsWell bad Q x) :
    EndsWell bad (fun a => P a ∧ Q a) x := by
  cases x with
  | ok a => exact ⟨h, h'⟩
  | error fault => exact h

theorem and_eq (h : EndsWell bad P x) : EndsWell bad (fun a => P a ∧ x = .ok a) x := by
  cases x with
  | ok a => exact ⟨h, rfl⟩
  | error fault => exact h

theorem of_ok {a : α} (h : EndsWell bad P x) (hx : x = .ok a) : P a := by
  subst hx
  exact h

theorem ne_error {fault : ε} (h : EndsWell bad P x) (hBad : bad fault) : x ≠ .error fault := by
  rintro rfl
  exact h hBad

end EndsWell

abbrev Yields (P : α → Prop) (x : Except ε α) : Prop := EndsWell (fun _ => False) P x

namespace Yields

variable {x : Except ε α}

theorem error {fault : ε} : Yields P (.error fault : Except ε α) := not_false

theorem skip {f : α → Except ε β} (hf : ∀ a, x = .ok a → Yields R (f a)) :
    Yields R (x >>= f) := by
  cases x with
  | ok a => exact hf a rfl
  | error fault => exact not_false

theorem bind_congr {f g : α → Except ε β} (h : Yields P x) (hSame : ∀ a, P a → f a = g a) :
    x >>= f = x >>= g := by
  cases x with
  | ok a => exact hSame a h
  | error fault => rfl

theorem of_eq (h : ∀ a, x = .ok a → P a) : Yields P x := by
  cases x with
  | ok a => exact h a rfl
  | error fault => exact not_false

end Yields

end TrainKernel.Library.Outcome
