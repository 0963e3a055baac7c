import TrainKernel.Library.Links

/-!
# Circular lists

A circular list is known by its last cell, whose link leads to the first one.
-/

namespace TrainKernel.Library.Links

open Function

variable {α : Type*} {next : α → Option α} {t x c : α} {l l₁ l₂ a : List α}

/-- The ring with last cell `t` visits the cells of `l` before it comes to `t`. -/
structure Ring (next : α → Option α) (t : α) (l : List α) : Prop where
  chain : Segment next (next t) l (some t)
  nodup : (t :: l).Nodup

theorem Ring.cycle (h : Ring next t l) : Segment next (some t) (t :: l) (some t) := ⟨rfl, h.chain⟩

theorem Ring.next_eq (h : Ring next t (l₁ ++ l₂)) (ha : t :: l₁ = a ++ [c]) :
    next c = (l₂ ++ [t]).head? := by
  have hCycle := h.cycle
  rw [← List.cons_append, ha, List.append_assoc] at hCycle
  obtain ⟨m, -, rfl, hRest⟩ := segment_append.mp hCycle
  cases l₂ with
  | nil => exact hRest
  | cons y l₂ => exact hRest.1

theorem Ring.next_last (h : Ring next t l) : next t = (l ++ [t]).head? :=
  (show Ring next t ([] ++ l) from h).next_eq (a := []) rfl

variable [DecidableEq α]

theorem Ring.single (next : α → Option α) (x : α) : Ring (update next x (some x)) x [] :=
  ⟨by simp, List.nodup_singleton x⟩

theorem Ring.insert_cycle (h : Ring next t (l₁ ++ l₂)) (ha : t :: l₁ = a ++ [c])
    (hx : x ∉ t :: (l₁ ++ l₂)) :
    Segment (update (update next x (next c)) c (some x)) (some t) (t :: (l₁ ++ x :: l₂))
      (some t) := by
  have hList (l : List α) : t :: (l₁ ++ l) = a ++ c :: l := by
    rw [← List.cons_append, ha, List.append_assoc]
    rfl
  have hCycle := h.cycle
  have hNodup := h.nodup
  rw [hList] at hCycle hNodup hx ⊢
  exact segment_insert hCycle hNodup hx

theorem Ring.insert (h : Ring next t (l₁ ++ l₂)) (ha : t :: l₁ = a ++ [c])
    (hx : x ∉ t :: (l₁ ++ l₂)) :
    Ring (update (update next x (next c)) c (some x)) t (l₁ ++ x :: l₂) := by
  refine ⟨(h.insert_cycle ha hx).2, ?_⟩
  have hPerm : t :: (l₁ ++ x :: l₂) = (t :: l₁) ++ x :: l₂ := rfl
  rw [hPerm, List.nodup_middle]
  exact List.nodup_cons.mpr ⟨hx, h.nodup⟩

theorem Ring.insert_last (h : Ring next t l) (ha : t :: l = a ++ [c]) (hx : x ∉ t :: l) :
    Ring (update (update next x (next c)) c (some x)) x (t :: l) := by
  rw [← List.append_nil l] at h hx
  have hCycle := h.insert_cycle ha hx
  rw [List.append_nil] at hx h
  rw [show t :: (l ++ [x]) = (t :: l) ++ [x] from rfl] at hCycle
  obtain ⟨m, hInit, rfl, hLast⟩ := segment_append.mp hCycle
  rw [segment_nil] at hLast
  refine ⟨?_, List.nodup_cons.mpr ⟨hx, h.nodup⟩⟩
  rw [hLast]
  exact hInit

theorem Ring.drop (h : Ring next t (l₁ ++ l₂)) :
    Ring (update next t (l₂ ++ [t]).head?) t l₂ := by
  obtain ⟨m, -, hRest⟩ := segment_append.mp h.chain
  have hNodup := h.nodup
  rw [List.nodup_cons, List.mem_append, not_or] at hNodup
  refine ⟨?_, List.nodup_cons.mpr ⟨hNodup.1.2, (List.nodup_append.mp hNodup.2).2.1⟩⟩
  rw [update_self, segment_update hNodup.1.2]
  cases l₂ with
  | nil => rfl
  | cons y l₂ => exact ⟨rfl, hRest.2⟩

end TrainKernel.Library.Links
