import TrainKernel.User.QueueContents

/-!
# Character buffers

The ring buffer for characters. A string is pushed one character after the other, and each of
them can overflow the buffer.
-/

namespace TrainKernel.User

abbrev Byte := BitVec 8

/-- A string of C, without the NUL at its end. -/
structure CString where
  bytes : List Byte
  zero_notMem : 0 ∉ bytes

/-- A `String`: what stands in the buffer from `len` on does not belong to it. -/
structure StringBuf where
  len : Nat
  buf : Nat → Byte

def StringBuf.bytes (s : StringBuf) : List Byte := (List.range s.len).map s.buf

abbrev CBuffer := RingBuffer Byte

def cbufferInit (array : Nat → Byte) (size : Nat) : CBuffer := ⟨0, 0, size, array⟩

/-- With 0, or with -1 for an overflow. -/
def cbufferPush (b : CBuffer) (ch : Byte) : CBuffer × Int :=
  let (b, kept) := b.enqueue ch
  (b, if kept then 0 else -1)

/-- An empty buffer gives -1, which is 255 as a `char`. -/
def cbufferPop (b : CBuffer) : Byte × CBuffer :=
  match b.dequeue with
  | some (ch, b) => (ch, b)
  | none => (255, b)

def cbufferIsEmpty (b : CBuffer) : Bool := b.isEmpty

def cbufferClean (b : CBuffer) : CBuffer := { b with head := 0, tail := 0 }

/-- The loop over the characters, with the result of the last push. -/
def pushLoop : List Byte → CBuffer → Int → CBuffer × Int
  | [], b, ret => (b, ret)
  | ch :: str, b, _ => pushLoop str (cbufferPush b ch).1 (cbufferPush b ch).2

def cbufferPushStr (b : CBuffer) (str : CString) : CBuffer × Int :=
  let (b, ret) := pushLoop str.bytes b 0
  (b, if ret = 0 then str.bytes.length else ret)

def cbufferPushString (b : CBuffer) (s : StringBuf) : CBuffer × Int :=
  let (b, ret) := pushLoop s.bytes b 0
  (b, if ret = 0 then s.len else ret)

namespace CBuffer

variable {b : CBuffer} {ch : Byte} {str : List Byte}

/-- No push of the string overflows. -/
def Takes : CBuffer → List Byte → Prop
  | _, [] => True
  | b, ch :: str => (cbufferPush b ch).2 = 0 ∧ Takes (cbufferPush b ch).1 str

/-- A buffer of the given size. -/
structure Sized (size : Nat) (b : CBuffer) : Prop where
  wellFormed : b.WellFormed
  size_eq : b.size = size

namespace Sized

variable {size : Nat}

theorem init (array : Nat → Byte) (h : 0 < size) : Sized size (cbufferInit array size) :=
  ⟨⟨h, h⟩, rfl⟩

theorem contents_init (array : Nat → Byte) (h : 0 < size) :
    (cbufferInit array size).contents = [] :=
  (init array h).wellFormed.contents_eq_nil_iff.mpr rfl

theorem isEmpty_iff (h : Sized size b) : cbufferIsEmpty b ↔ b.contents = [] := by
  rw [h.wellFormed.contents_eq_nil_iff, cbufferIsEmpty, RingBuffer.isEmpty, decide_eq_true_iff]

theorem push (h : Sized size b) (ch : Byte) : Sized size (cbufferPush b ch).1 :=
  ⟨h.wellFormed.enqueue ch, (RingBuffer.size_enqueue b ch).trans h.size_eq⟩

theorem push_kept_iff (h : Sized size b) :
    (cbufferPush b ch).2 = 0 ↔ b.contents.length + 1 < size := by
  rw [cbufferPush, ← h.size_eq, ← h.wellFormed.kept_iff (x := ch)]
  dsimp only
  split_ifs with hKept
  · simp [hKept]
  · simp [hKept]

theorem contents_push (h : Sized size b) (hKept : (cbufferPush b ch).2 = 0) :
    (cbufferPush b ch).1.contents = b.contents ++ [ch] := by
  rw [h.push_kept_iff, ← h.size_eq] at hKept
  exact h.wellFormed.contents_enqueue (h.wellFormed.kept_iff.mpr hKept)

theorem pushLoop (h : Sized size b) (hTakes : Takes b str) (ret : Int) :
    Sized size (pushLoop str b ret).1 ∧ (pushLoop str b ret).1.contents = b.contents ++ str := by
  induction str generalizing b ret with
  | nil => exact ⟨h, (List.append_nil _).symm⟩
  | cons ch str ih =>
    obtain ⟨hSized, hContents⟩ := ih (h.push ch) hTakes.2 (cbufferPush b ch).2
    refine ⟨hSized, ?_⟩
    rw [User.pushLoop, hContents, h.contents_push hTakes.1, List.append_assoc]
    rfl

theorem pop (h : Sized size b) (hSome : b.contents ≠ []) :
    Sized size (cbufferPop b).2 ∧ b.contents = (cbufferPop b).1 :: (cbufferPop b).2.contents := by
  rw [cbufferPop]
  cases hNext : b.dequeue with
  | none => exact absurd (h.wellFormed.dequeue_eq_none_iff.mp hNext) hSome
  | some r =>
    obtain ⟨ch, b'⟩ := r
    obtain ⟨hContents, hWellFormed, hSize⟩ := h.wellFormed.contents_dequeue hNext
    exact ⟨⟨hWellFormed, hSize.trans h.size_eq⟩, hContents⟩

end Sized

end CBuffer

end TrainKernel.User
