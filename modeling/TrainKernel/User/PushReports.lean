import TrainKernel.User.CharBuffer

/-!
# What a pushed string reports

A push into a full buffer drops what the buffer holds, and the length of the contents starts again
at one. The loop over a string keeps the result of its last push alone, so that an overflow
before the last character goes unreported.
-/

namespace TrainKernel.User.CBuffer

variable {b : CBuffer} {ch : Byte} {str : List Byte} {size : Nat}

/-- Some push of the string loses characters that the buffer holds at that time. -/
def Discards : CBuffer → List Byte → Prop
  | _, [] => False
  | b, ch :: str =>
    b.contents ≠ [] ∧ (cbufferPush b ch).1.contents ≠ b.contents ++ [ch] ∨
      Discards (cbufferPush b ch).1 str

/-- The result tells whether the string discards something. -/
def Reports (ret : Int) (b : CBuffer) (str : List Byte) : Prop :=
  (ret = -1 ↔ Discards b str) ∧ (¬Discards b str → ret = str.length)

namespace Sized

theorem of_wellFormed (h : b.WellFormed) : Sized b.size b := ⟨h, rfl⟩

theorem length_lt (h : Sized size b) : b.contents.length < size := by
  rw [RingBuffer.length_contents, ← h.size_eq]
  exact h.wellFormed.count_lt

theorem push_status (h : Sized size b) (ch : Byte) :
    (cbufferPush b ch).2 = if b.contents.length + 1 < size then 0 else -1 := by
  have hKept : (cbufferPush b ch).2 = 0 ↔ b.contents.length + 1 < size := h.push_kept_iff
  rw [cbufferPush] at hKept ⊢
  dsimp only at hKept ⊢
  split_ifs at hKept ⊢ with hFlag hRoom hRoom
  · rfl
  · exact absurd (hKept.mp rfl) hRoom
  · exact absurd (hKept.mpr hRoom) (by decide)
  · rfl

theorem contents_push_overflow (h : Sized size b) (hSize : 2 ≤ size)
    (hFull : ¬b.contents.length + 1 < size) : (cbufferPush b ch).1.contents = [ch] := by
  apply h.wellFormed.contents_overflow
  · rw [h.size_eq]
    exact hSize
  · rw [← Bool.not_eq_true, h.wellFormed.kept_iff, h.size_eq]
    exact hFull

/-- A push leaves one character more, and a full buffer starts again at one. -/
theorem length_push (h : Sized size b) (hSize : 2 ≤ size) (ch : Byte) :
    (cbufferPush b ch).1.contents.length = b.contents.length % (size - 1) + 1 := by
  have hLess := h.length_lt
  by_cases hRoom : b.contents.length + 1 < size
  · have hKept : (cbufferPush b ch).2 = 0 := h.push_kept_iff.mpr hRoom
    have hMod : b.contents.length % (size - 1) = b.contents.length :=
      Nat.mod_eq_of_lt (by omega)
    rw [h.contents_push hKept, hMod, List.length_append]
    rfl
  · have hFull : b.contents.length = size - 1 := by omega
    rw [h.contents_push_overflow hSize hRoom, hFull, Nat.mod_self]
    rfl

/-- The loop ends with an overflow when its last push starts the buffer over. -/
theorem pushLoop_status_iff (h : Sized size b) (hSize : 2 ≤ size) (ch : Byte) (str : List Byte)
    (ret : Int) : (User.pushLoop (ch :: str) b ret).2 = -1 ↔
      size - 1 ∣ b.contents.length + str.length ∧ 0 < b.contents.length + str.length := by
  induction str generalizing b ch ret with
  | nil =>
    have hLess := h.length_lt
    rw [User.pushLoop, User.pushLoop, h.push_status, List.length_nil,
      Nat.add_zero b.contents.length]
    split_ifs with hRoom
    · simp only [false_iff, not_and]
      intro hDvd hPos
      have := Nat.le_of_dvd hPos hDvd
      omega
    · have hFull : b.contents.length = size - 1 := by omega
      rw [hFull]
      simp only [dvd_refl, true_and, true_iff]
      omega
  | cons next str ih =>
    rw [User.pushLoop, ih (h.push ch), h.length_push hSize ch, List.length_cons]
    have hSum : b.contents.length % (size - 1) + 1 + str.length =
        b.contents.length % (size - 1) + (str.length + 1) := by omega
    rw [hSum, Nat.dvd_iff_mod_eq_zero, Nat.mod_add_mod, ← Nat.dvd_iff_mod_eq_zero]
    have hPos (k : Nat) : 0 < k + (str.length + 1) := by omega
    simp only [hPos, and_true]

theorem pushLoop_status (h : Sized size b) (str : List Byte) (ret : Int)
    (hRet : ret = 0 ∨ ret = -1) :
    (User.pushLoop str b ret).2 = 0 ∨ (User.pushLoop str b ret).2 = -1 := by
  induction str generalizing b ret with
  | nil => exact hRet
  | cons ch str ih =>
    apply ih (h.push ch)
    rw [h.push_status]
    split_ifs
    · exact .inl rfl
    · exact .inr rfl

theorem discards_iff (h : Sized size b) (hSize : 2 ≤ size) (str : List Byte) :
    Discards b str ↔ size ≤ b.contents.length + str.length := by
  induction str generalizing b with
  | nil => simp [Discards, h.length_lt]
  | cons ch str ih =>
    rw [Discards, ih (h.push ch), List.length_cons]
    have hLess := h.length_lt
    by_cases hRoom : b.contents.length + 1 < size
    · have hKept : (cbufferPush b ch).2 = 0 := h.push_kept_iff.mpr hRoom
      rw [h.contents_push hKept, List.length_append, List.length_singleton]
      simp only [ne_eq, not_true_eq_false, and_false, false_or]
      omega
    · have hSome : b.contents ≠ [] := by
        intro hNil
        rw [hNil, List.length_nil] at hRoom
        omega
      have hDropped : (cbufferPush b ch).1.contents ≠ b.contents ++ [ch] := by
        intro hEq
        rw [h.contents_push_overflow hSize hRoom] at hEq
        exact hSome (List.append_eq_singleton_iff.mp hEq.symm |>.elim And.left (by simp))
      simp only [hSome, hDropped, ne_eq, not_false_eq_true, and_self, true_or, true_iff]
      omega

/-- A buffer with a single cell never holds anything. -/
theorem contents_eq_nil (h : Sized 1 b) : b.contents = [] :=
  List.eq_nil_of_length_eq_zero (Nat.lt_one_iff.mp h.length_lt)

theorem not_discards (h : Sized 1 b) (str : List Byte) : ¬Discards b str := by
  induction str generalizing b with
  | nil => exact id
  | cons ch str ih =>
    rintro (⟨hSome, -⟩ | hLater)
    · exact hSome h.contents_eq_nil
    · exact ih (h.push ch) hLater

theorem pushLoop_status_one (h : Sized 1 b) (ch : Byte) (str : List Byte) (ret : Int) :
    (User.pushLoop (ch :: str) b ret).2 = -1 := by
  induction str generalizing b ch ret with
  | nil => rw [User.pushLoop, User.pushLoop, h.push_status, if_neg (by omega)]
  | cons next str ih => exact ih (h.push ch) next (cbufferPush b ch).2

end Sized

/-- The string fits, or its last character is one that finds the buffer full. -/
def LastOverflows (size held pushed : Nat) : Prop :=
  held + pushed < size ∨ 2 ≤ size ∧ size - 1 ∣ held + pushed - 1

/-- A push loop that ends with -1 or 0 makes the report that its end allows. -/
theorem reports_iff_status {ret : Int} (hRet : ret = 0 ∨ ret = -1) :
    Reports (if ret = 0 then str.length else ret) b str ↔ (ret = -1 ↔ Discards b str) := by
  rw [Reports]
  rcases hRet with rfl | rfl
  · have hLength : (str.length : Int) ≠ -1 := by omega
    simp [hLength]
  · simp

theorem pushLoop_reports_iff (h : b.WellFormed) (str : List Byte) :
    Reports (if (pushLoop str b 0).2 = 0 then str.length else (pushLoop str b 0).2) b str ↔
      LastOverflows b.size b.contents.length str.length := by
  have hSized := Sized.of_wellFormed h
  have hLess := hSized.length_lt
  rw [reports_iff_status (hSized.pushLoop_status str 0 (.inl rfl)), LastOverflows]
  cases str with
  | nil => simp [pushLoop, Discards, hLess]
  | cons ch str =>
    rw [List.length_cons]
    by_cases hSize : 2 ≤ b.size
    · rw [hSized.pushLoop_status_iff hSize, hSized.discards_iff hSize, List.length_cons]
      have hLast : b.contents.length + (str.length + 1) - 1 = b.contents.length + str.length := by
        omega
      rw [hLast]
      simp only [hSize, true_and]
      constructor
      · intro hIff
        by_cases hFits : b.contents.length + (str.length + 1) < b.size
        · exact .inl hFits
        · exact .inr (hIff.mpr (Nat.le_of_not_lt hFits)).1
      · rintro (hFits | hDvd)
        · constructor
          · rintro ⟨hDvd, hPos⟩
            have := Nat.le_of_dvd hPos hDvd
            omega
          · intro hFull
            omega
        · constructor
          · rintro ⟨-, hPos⟩
            have := Nat.le_of_dvd hPos hDvd
            omega
          · intro hFull
            exact ⟨hDvd, by omega⟩
    · have hOne : b.size = 1 := by omega
      rw [hOne] at hSized
      simp [hSized.pushLoop_status_one, hSized.not_discards, hOne]

theorem push_reports_iff (b : CBuffer) (h : b.WellFormed) :
    (∀ str : CString, Reports (cbufferPushStr b str).2 b str.bytes ↔
      LastOverflows b.size b.contents.length str.bytes.length) ∧
    ∀ s : StringBuf, Reports (cbufferPushString b s).2 b s.bytes ↔
      LastOverflows b.size b.contents.length s.len := by
  constructor
  · intro str
    exact pushLoop_reports_iff h str.bytes
  · intro s
    have hLength : s.bytes.length = s.len := by
      rw [StringBuf.bytes, List.length_map, List.length_range]
    have hReports := pushLoop_reports_iff h s.bytes
    rw [hLength] at hReports
    exact hReports

/-- A buffer for two characters, as it is set up. -/
def smallBuffer : CBuffer := cbufferInit (fun _ => 0) 3

theorem smallBuffer_wellFormed : smallBuffer.WellFormed := ⟨by decide, by decide⟩

theorem push_reports_iff_small : smallBuffer.WellFormed ∧ ∀ str : CString,
    Reports (cbufferPushStr smallBuffer str).2 smallBuffer str.bytes ↔
      LastOverflows smallBuffer.size smallBuffer.contents.length str.bytes.length :=
  ⟨smallBuffer_wellFormed, (push_reports_iff smallBuffer smallBuffer_wellFormed).1⟩

def fourCharacters : CString := ⟨[97, 98, 99, 100], by decide⟩

/-- The third of four characters drops the first two, and the fourth one is kept. -/
theorem not_push_reports : ¬∀ (b : CBuffer) (str : CString), b.WellFormed →
    Reports (cbufferPushStr b str).2 b str.bytes := by
  intro hReports
  have hFour := (hReports smallBuffer fourCharacters smallBuffer_wellFormed).1
  have hDropped : Discards smallBuffer fourCharacters.bytes := by
    rw [(Sized.of_wellFormed smallBuffer_wellFormed).discards_iff (by decide)]
    decide
  have hResult : (cbufferPushStr smallBuffer fourCharacters).2 = 4 := by decide
  rw [hResult] at hFour
  exact absurd (hFour.mpr hDropped) (by decide)

end TrainKernel.User.CBuffer
