import Mathlib.Data.List.Infix

/-!
# Prefix codes

No code word is the beginning of another one. What has been received of a sequence of code words is
then some of them and the beginning of the next, and there is only one way to read it.
-/

namespace TrainKernel.Library.PrefixCode

variable {α β : Type*} {code : α → List β} {as bs : List α} {w p q : List β}

structure IsPrefixCode (code : α → List β) : Prop where
  ne_nil : ∀ a, code a ≠ []
  eq_of_prefix : ∀ a b, code a <+: code b → a = b

def encode (code : α → List β) (as : List α) : List β := as.flatMap code

/-- The beginning of a code word that is not complete yet. -/
def Unfinished (code : α → List β) (p : List β) : Prop := p = [] ∨ ∃ a, p <+: code a ∧ p ≠ code a

theorem encode_cons (a : α) (as : List α) : encode code (a :: as) = code a ++ encode code as := rfl

/-- What has been received is a number of words and the beginning of the next. -/
theorem exists_received (h : w <+: encode code as) : ∃ done rest part, as = done ++ rest ∧
    w = encode code done ++ part ∧ part <+: encode code rest ∧ Unfinished code part := by
  induction as generalizing w with
  | nil =>
    obtain rfl := List.prefix_nil.mp h
    exact ⟨[], [], [], rfl, rfl, List.prefix_rfl, .inl rfl⟩
  | cons a as ih =>
    rw [encode_cons] at h
    rcases List.prefix_or_prefix_of_prefix h (List.prefix_append _ _) with hPart | ⟨w', rfl⟩
    · rcases eq_or_ne w (code a) with rfl | hNe
      · refine ⟨[a], as, [], rfl, ?_, List.nil_prefix, .inl rfl⟩
        rw [encode_cons, List.append_nil]
        exact (List.append_nil _).symm
      · exact ⟨[], a :: as, w, rfl, rfl, h, .inr ⟨a, hPart, hNe⟩⟩
    · obtain ⟨done, rest, part, rfl, rfl, hPart, hUnfinished⟩ :=
        ih ((List.prefix_append_right_inj _).mp h)
      refine ⟨a :: done, rest, part, rfl, ?_, hPart, hUnfinished⟩
      rw [encode_cons, List.append_assoc]

namespace IsPrefixCode

variable (hCode : IsPrefixCode code)
include hCode

theorem not_prefix_unfinished {a : α} (h : Unfinished code p) : ¬code a <+: p := by
  intro hPrefix
  rcases h with rfl | ⟨b, hPart, hNe⟩
  · exact hCode.ne_nil a (List.prefix_nil.mp hPrefix)
  · obtain rfl := hCode.eq_of_prefix a b (hPrefix.trans hPart)
    exact hNe (hPart.eq_of_length_le hPrefix.length_le)

/-- There is only one way to read what has been received. -/
theorem read_unique (h : encode code as ++ p = encode code bs ++ q) (hp : Unfinished code p)
    (hq : Unfinished code q) : as = bs ∧ p = q := by
  induction as generalizing bs with
  | nil =>
    cases bs with
    | nil => exact ⟨rfl, h⟩
    | cons b bs =>
      rw [encode_cons, List.append_assoc] at h
      exact (hCode.not_prefix_unfinished hp ⟨_, h.symm⟩).elim
  | cons a as ih =>
    cases bs with
    | nil =>
      rw [encode_cons, List.append_assoc] at h
      exact (hCode.not_prefix_unfinished hq ⟨_, h⟩).elim
    | cons b bs =>
      rw [encode_cons, encode_cons, List.append_assoc, List.append_assoc] at h
      have hSame : a = b := by
        rcases List.prefix_or_prefix_of_prefix ⟨_, rfl⟩ ⟨_, h.symm⟩ with hPrefix | hPrefix
        · exact hCode.eq_of_prefix a b hPrefix
        · exact (hCode.eq_of_prefix b a hPrefix).symm
      subst hSame
      obtain ⟨rfl, rfl⟩ := ih (List.append_cancel_left h)
      exact ⟨rfl, rfl⟩

end IsPrefixCode

end TrainKernel.Library.PrefixCode
