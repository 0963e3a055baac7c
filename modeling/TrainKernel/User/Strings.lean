import TrainKernel.User.Nameserver

/-!
# Strings

The operations of `utils.c` on a `String`. It holds a sequence of characters if these stand in its
buffer and a NUL stands behind them.
-/

namespace TrainKernel.User

open Function

def strMaxLen : Nat := 1024

/-- The assertions, a write outside of a buffer, and a loop that does not come to its end. -/
inductive StringFault where
  | copyTooLong
  | stringFull
  | concatTooLong
  | outsideBuffer
  | endless
deriving DecidableEq

/-- The last cell of the buffer is not cleared. -/
def sinit (s : StringBuf) : StringBuf := ⟨0, fun i => if i < strMaxLen then 0 else s.buf i⟩

def slen (s : StringBuf) : Nat := s.len

/-- The buffer with the characters written to its start. -/
def overwrite (buf : Nat → Byte) (written : List Byte) : Nat → Byte :=
  fun i => written[i]?.getD (buf i)

/-- The length is added to the one before, and no NUL is written. -/
def scopy (dst : StringBuf) (src : CString) : Except StringFault StringBuf :=
  let n := src.bytes.length
  if n < strMaxLen then .ok ⟨dst.len + n, overwrite dst.buf (strncpy src.bytes n)⟩
  else .error .copyTooLong

/-- The length stays as `sinit` leaves it. -/
def scopystr (dst src : StringBuf) : StringBuf :=
  let dst := sinit dst
  { dst with buf := overwrite dst.buf (strncpy src.bytes src.len) }

/-- The character is read before the length goes down, behind the last one. -/
def spop (s : StringBuf) : Byte × StringBuf :=
  if slen s = 0 then (0, s)
  else (s.buf s.len, ⟨s.len - 1, update s.buf (s.len - 1) 0⟩)

def sputc (s : StringBuf) (c : Byte) : Except StringFault StringBuf :=
  if s.len < strMaxLen then
    .ok ⟨s.len + 1, update (update s.buf s.len c) (s.len + 1) 0⟩
  else .error .stringFull

/-- `sputc` for one character after the other. -/
def sputAll : List Byte → StringBuf → Except StringFault StringBuf
  | [], s => .ok s
  | c :: rest, s => do
    let s ← sputc s c
    sputAll rest s

def sputstr (s : StringBuf) (str : CString) : Except StringFault StringBuf := sputAll str.bytes s

def sconcat (dst src : StringBuf) : Except StringFault StringBuf :=
  if dst.len + src.len + 1 < strMaxLen then sputAll src.bytes dst else .error .concatTooLong

namespace StringBuf

variable {s s' : StringBuf} {l str : List Byte} {c : Byte} {i : Nat}

structure Holds (s : StringBuf) (l : List Byte) : Prop where
  bytes_eq : s.bytes = l
  terminated : s.buf s.len = 0

theorem length_bytes (s : StringBuf) : s.bytes.length = s.len := by
  rw [bytes, List.length_map, List.length_range]

theorem bytes_eq_iff : s.bytes = l ↔ s.len = l.length ∧ ∀ i < s.len, l[i]? = some (s.buf i) := by
  constructor
  · rintro rfl
    refine ⟨s.length_bytes.symm, ?_⟩
    intro i hi
    rw [bytes, List.getElem?_map, List.getElem?_range hi]
    rfl
  · rintro ⟨hLength, hCells⟩
    apply List.ext_getElem?
    intro i
    by_cases hi : i < s.len
    · rw [hCells i hi, bytes, List.getElem?_map, List.getElem?_range hi]
      rfl
    · rw [List.getElem?_eq_none, List.getElem?_eq_none]
      · omega
      · rw [length_bytes]
        omega

namespace Holds

theorem len_eq (h : Holds s l) : s.len = l.length := by
  rw [← h.bytes_eq, length_bytes]

theorem sinit (s : StringBuf) : Holds (sinit s) [] := ⟨rfl, rfl⟩

theorem sputc (h : Holds s l) (hRoom : l.length < strMaxLen) (c : Byte) :
    ∃ s', sputc s c = .ok s' ∧ Holds s' (l ++ [c]) := by
  have hLen := h.len_eq
  refine ⟨_, if_pos (hLen.trans_lt hRoom), ?_, update_self ..⟩
  have hOld := bytes_eq_iff.mp h.bytes_eq
  rw [bytes_eq_iff, List.length_append, hLen]
  refine ⟨rfl, ?_⟩
  intro i hi
  dsimp only at hi ⊢
  rw [update_of_ne (Nat.ne_of_lt hi)]
  cases Nat.lt_succ_iff_lt_or_eq.mp hi with
  | inl hBefore =>
    rw [update_of_ne (Nat.ne_of_lt hBefore), List.getElem?_append_left hBefore]
    exact hOld.2 i (hLen.symm ▸ hBefore)
  | inr hLast =>
    rw [hLast, update_self]
    exact List.getElem?_concat_length

theorem sputAll (h : Holds s l) (hRoom : l.length + str.length ≤ strMaxLen) :
    ∃ s', sputAll str s = .ok s' ∧ Holds s' (l ++ str) := by
  induction str generalizing s l with
  | nil => exact ⟨s, rfl, (List.append_nil l).symm ▸ h⟩
  | cons c str ih =>
    rw [List.length_cons] at hRoom
    obtain ⟨s₁, hFirst, hHolds⟩ := h.sputc (by omega) c
    obtain ⟨s', hRest, hAll⟩ := ih hHolds (by
      rw [List.length_append, List.length_singleton]
      omega)
    refine ⟨s', ?_, ?_⟩
    · rw [User.sputAll, hFirst]
      exact hRest
    · rw [List.append_cons]
      exact hAll

end Holds

end StringBuf

end TrainKernel.User
