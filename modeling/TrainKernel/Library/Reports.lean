import Mathlib.Data.List.Forall2
import Mathlib.Data.List.Induction

/-!
# Computations that report

A computation may report faults on its way and go on, and it may be aborted. It is clean if it
comes to its end without a report; only then its value is meant to be used. The rules take a
clean computation apart along its structure.
-/

namespace TrainKernel.Library.Reports

universe u

structure Reported (ε α : Type u) where
  /-- `none` if the computation was aborted. -/
  value : Option α
  reports : List ε

namespace Reported

variable {ε α β σ : Type u}

def report (e : ε) : Reported ε PUnit := ⟨some ⟨⟩, [e]⟩

def abort : Reported ε α := ⟨none, []⟩

def bind (x : Reported ε α) (f : α → Reported ε β) : Reported ε β :=
  match x.value with
  | some a => ⟨(f a).value, x.reports ++ (f a).reports⟩
  | none => ⟨none, x.reports⟩

instance : Monad (Reported ε) where
  pure a := ⟨some a, []⟩
  bind := bind

theorem id_map (x : Reported ε α) : id <$> x = x := by
  obtain ⟨_ | a, reports⟩ := x
  · rfl
  · exact congrArg (mk _) (List.append_nil reports)

theorem bind_assoc (x : Reported ε α) (f : α → Reported ε β) (g : β → Reported ε σ) :
    x >>= f >>= g = x >>= fun a => f a >>= g := by
  obtain ⟨_ | a, reports⟩ := x
  · rfl
  · cases h : (f a).value <;> simp [Bind.bind, bind, h]

instance : LawfulMonad (Reported ε) :=
  LawfulMonad.mk' _ id_map (fun _ _ => rfl) bind_assoc

def reportIf (c : Prop) [Decidable c] (e : ε) : Reported ε PUnit :=
  if c then report e else pure ⟨⟩

structure Clean (x : Reported ε α) (a : α) : Prop where
  value : x.value = some a
  reports : x.reports = []

variable {x : Reported ε α} {f : α → Reported ε β} {a a' : α} {b : β} {e : ε}

theorem Clean.unique (h : x.Clean a) (h' : x.Clean a') : a = a' :=
  Option.some_inj.mp (h.value.symm.trans h'.value)

@[simp] theorem clean_pure : (pure a : Reported ε α).Clean a' ↔ a = a' :=
  ⟨fun h => Option.some_inj.mp h.value, fun h => ⟨congrArg some h, rfl⟩⟩

@[simp] theorem not_clean_report {u : PUnit} : ¬(report e).Clean u := fun h => by cases h.reports

@[simp] theorem not_clean_abort : ¬(abort : Reported ε α).Clean a := fun h => by cases h.value

theorem clean_bind : (x >>= f).Clean b ↔ ∃ a, x.Clean a ∧ (f a).Clean b := by
  obtain ⟨_ | a, reports⟩ := x
  · exact ⟨fun h => (by cases h.value), fun ⟨a, h, _⟩ => by cases h.value⟩
  · constructor
    · rintro ⟨hValue, hReports⟩
      obtain ⟨rfl, hLater⟩ := List.append_eq_nil_iff.mp hReports
      exact ⟨a, ⟨rfl, rfl⟩, hValue, hLater⟩
    · rintro ⟨a', ⟨hSame, rfl⟩, hValue, hLater⟩
      obtain rfl := Option.some_inj.mp hSame
      exact ⟨hValue, hLater⟩

@[simp] theorem clean_map {f : α → β} : (f <$> x).Clean b ↔ ∃ a, x.Clean a ∧ f a = b := by
  rw [map_eq_pure_bind, clean_bind]
  simp only [clean_pure]

@[simp] theorem clean_reportIf {c : Prop} [Decidable c] {u : PUnit} :
    (reportIf c e).Clean u ↔ ¬c := by
  rw [reportIf]
  split_ifs with h
  · simpa using h
  · simpa using h

@[simp] theorem clean_reportIf_bind {c : Prop} [Decidable c] {x : Reported ε α} :
    (reportIf c e >>= fun _ => x).Clean a ↔ ¬c ∧ x.Clean a := by
  simp [clean_bind]

@[simp] theorem not_clean_report_bind {x : Reported ε α} :
    ¬(report e >>= fun _ => x).Clean a := by
  simp [clean_bind]

variable {l l' : List α} {s s' s'' : σ} {step : σ → α → Reported ε σ}

@[simp] theorem clean_foldlM_nil : (([] : List α).foldlM step s).Clean s' ↔ s = s' := by
  rw [List.foldlM_nil, clean_pure]

theorem clean_foldlM_cons : ((a :: l).foldlM step s).Clean s'' ↔
    ∃ s', (step s a).Clean s' ∧ (l.foldlM step s').Clean s'' := by
  rw [List.foldlM_cons, clean_bind]

theorem clean_foldlM_append : ((l ++ l').foldlM step s).Clean s'' ↔
    ∃ s', (l.foldlM step s).Clean s' ∧ (l'.foldlM step s').Clean s'' := by
  rw [List.foldlM_append, clean_bind]

theorem clean_foldlM_concat : ((l ++ [a]).foldlM step s).Clean s'' ↔
    ∃ s', (l.foldlM step s).Clean s' ∧ (step s' a).Clean s'' := by
  simp only [List.foldlM_append, List.foldlM_cons, List.foldlM_nil, bind_pure, clean_bind]

/-- What a fold does cleanly is what is said of it, if each step keeps it so. -/
theorem clean_foldlM_iff {P : List α → σ → Prop} (hNil : ∀ s', P [] s' ↔ s = s')
    (hConcat : ∀ l a s'', P (l ++ [a]) s'' ↔ ∃ s', P l s' ∧ (step s' a).Clean s'') :
    (l.foldlM step s).Clean s' ↔ P l s' := by
  induction l using List.reverseRecOn generalizing s' with
  | nil => rw [clean_foldlM_nil, hNil]
  | append_singleton l a ih => simp only [clean_foldlM_concat, hConcat, ih]

theorem clean_mapM {l' : List β} : (l.mapM f).Clean l' ↔
    List.Forall₂ (fun a b => (f a).Clean b) l l' := by
  induction l generalizing l' with
  | nil => simp [List.mapM_nil, eq_comm]
  | cons a l ih =>
    rw [List.mapM_cons, clean_bind]
    simp only [clean_bind, clean_pure, ih]
    constructor
    · rintro ⟨b, hFirst, bs, hRest, rfl⟩
      exact .cons hFirst hRest
    · rintro (_ | ⟨hFirst, hRest⟩)
      exact ⟨_, hFirst, _, hRest, rfl⟩

theorem clean_forM {f : α → Reported ε PUnit} {u : PUnit} : (l.forM f).Clean u ↔
    ∀ a ∈ l, (f a).Clean u := by
  induction l with
  | nil => simp [List.forM]
  | cons a l ih =>
    rw [List.forM, clean_bind, List.forall_mem_cons, ← ih]
    exact ⟨fun ⟨_, hFirst, hRest⟩ => ⟨hFirst, hRest⟩, fun ⟨hFirst, hRest⟩ => ⟨u, hFirst, hRest⟩⟩

end Reported

end TrainKernel.Library.Reports
