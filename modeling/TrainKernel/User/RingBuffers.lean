import TrainKernel.Library.BoundedFifo
import TrainKernel.User.CharBuffer
import TrainKernel.User.SensorServer

/-!
# The ring buffers as queues

Characters, commands and sensor deliveries each have a ring buffer of their own. A buffer with
`size` cells is a queue for one element less.
-/

namespace TrainKernel.User

open Library.BoundedFifo

abbrev SensorQueue := RingBuffer SensorDelivery

def initSensorQueue (size : Nat) (buffer : Nat → SensorDelivery) : SensorQueue :=
  ⟨0, 0, size, buffer⟩

def enqueueSensor (q : SensorQueue) (tid type nodeIndex : Int) (timestamp : Nat) :
    SensorQueue × Bool :=
  q.enqueue ⟨tid, type, nodeIndex, timestamp⟩

def dequeueSensor (q : SensorQueue) : Option (SensorDelivery × SensorQueue) := q.dequeue

def isSensorQueueEmpty (q : SensorQueue) : Bool := q.isEmpty

/-- What an enqueue returns. -/
def enqueueStatus (kept : Bool) : Int := if kept then 0 else -1

def cbufferOperations : Operations Byte Byte CBuffer where
  push := cbufferPush
  pop := cbufferPop
  isEmpty := cbufferIsEmpty
  clear := cbufferClean

/-- A dequeue that finds nothing leaves the queue and its argument alone. -/
def commandOperations : Operations Command (Option Command) CommandQueue where
  push q command := ((enqueueCommand q command).1, enqueueStatus (enqueueCommand q command).2)
  pop q := ((dequeueCommand q).map Prod.fst, ((dequeueCommand q).map Prod.snd).getD q)
  isEmpty := isCommandQueueEmpty
  clear q := initCommandQueue q.size q.buffer

def sensorOperations : Operations SensorDelivery (Option SensorDelivery) SensorQueue where
  push q d :=
    ((enqueueSensor q d.tid d.type d.nodeIndex d.timestamp).1,
      enqueueStatus (enqueueSensor q d.tid d.type d.nodeIndex d.timestamp).2)
  pop q := ((dequeueSensor q).map Prod.fst, ((dequeueSensor q).map Prod.snd).getD q)
  isEmpty := isSensorQueueEmpty
  clear q := initSensorQueue q.size q.buffer

namespace RingBuffer

variable {α ρ : Type} {q : RingBuffer α} {size : Nat}

/-- A buffer of the given size. -/
structure Fits (size : Nat) (q : RingBuffer α) : Prop where
  wellFormed : q.WellFormed
  size_eq : q.size = size

theorem Fits.push (h : Fits size q) (hSize : 2 ≤ size) (x : α) (yield : Option α → ρ) :
    Fits size (q.enqueue x).1 ∧
      (q.enqueue x).1.contents = ((fifo (size - 1) yield).push q.contents x).1 ∧
      enqueueStatus (q.enqueue x).2 = ((fifo (size - 1) yield).push q.contents x).2 := by
  refine ⟨⟨h.wellFormed.enqueue x, (size_enqueue q x).trans h.size_eq⟩, ?_⟩
  have hRoom : q.contents.length < size - 1 ↔ q.contents.length + 1 < q.size := by
    rw [h.size_eq]
    omega
  simp only [fifo, hRoom, ← h.wellFormed.kept_iff (x := x)]
  cases hKept : (q.enqueue x).2 with
  | true => exact ⟨h.wellFormed.contents_enqueue hKept, rfl⟩
  | false =>
    have hOne : 1 < q.size := h.size_eq.symm ▸ hSize
    exact ⟨h.wellFormed.contents_overflow hOne hKept, rfl⟩

theorem Fits.pop (h : Fits size q) :
    Fits size ((q.dequeue.map Prod.snd).getD q) ∧
      ((q.dequeue.map Prod.snd).getD q).contents = q.contents.tail ∧
      q.dequeue.map Prod.fst = q.contents.head? := by
  cases hNext : q.dequeue with
  | none =>
    have hNil := h.wellFormed.dequeue_eq_none_iff.mp hNext
    refine ⟨h, ?_, ?_⟩
    · rw [hNil]
      exact hNil
    · rw [hNil]
      rfl
  | some r =>
    obtain ⟨x, q'⟩ := r
    obtain ⟨hContents, hWellFormed, hKeeps⟩ := h.wellFormed.contents_dequeue hNext
    refine ⟨⟨hWellFormed, hKeeps.trans h.size_eq⟩, ?_, ?_⟩
    · rw [hContents]
      rfl
    · rw [hContents]
      rfl

theorem Fits.isEmpty (h : Fits size q) : q.isEmpty = q.contents.isEmpty := by
  rw [Bool.eq_iff_iff, List.isEmpty_iff, h.wellFormed.contents_eq_nil_iff, RingBuffer.isEmpty,
    decide_eq_true_iff]

theorem Fits.init (hSize : 2 ≤ size) (buffer : Nat → α) : Fits size ⟨0, 0, size, buffer⟩ :=
  ⟨⟨Nat.zero_lt_of_lt hSize, Nat.zero_lt_of_lt hSize⟩, rfl⟩

theorem Fits.contents_init (hSize : 2 ≤ size) (buffer : Nat → α) :
    contents ⟨0, 0, size, buffer⟩ = [] :=
  (Fits.init hSize buffer).wellFormed.contents_eq_nil_iff.mpr rfl

/-- The buffer `q` gives the answers of a queue with room for `size - 1`, whatever is called. -/
structure ActsAsFifo (size : Nat) (yield : Option α → ρ) (ops : Operations α ρ (RingBuffer α))
    (q : RingBuffer α) : Prop where
  answers : ∀ calls, (ops.run calls q).1 = ((fifo (size - 1) yield).run calls []).1
  contents : ∀ calls, (ops.run calls q).2.contents = ((fifo (size - 1) yield).run calls []).2
  head_lt : ∀ calls, (ops.run calls q).2.head < size
  tail_lt : ∀ calls, (ops.run calls q).2.tail < size

theorem actsAsFifo {yield : Option α → ρ} {ops : Operations α ρ (RingBuffer α)}
    (hSize : 2 ≤ size) (h : Refines ops (fifo (size - 1) yield) (Fits size) contents)
    (buffer : Nat → α) : ActsAsFifo size yield ops ⟨0, 0, size, buffer⟩ := by
  have hRun := h.run (Fits.init hSize buffer)
  rw [Fits.contents_init hSize buffer] at hRun
  refine ⟨?_, ?_, ?_, ?_⟩
  · intro calls
    exact (hRun calls).2.2
  · intro calls
    exact (hRun calls).2.1
  · intro calls
    obtain ⟨⟨hWellFormed, hKeeps⟩, -⟩ := hRun calls
    exact hWellFormed.head_lt.trans_eq hKeeps
  · intro calls
    obtain ⟨⟨hWellFormed, hKeeps⟩, -⟩ := hRun calls
    exact hWellFormed.tail_lt.trans_eq hKeeps

/-- A queue whose operations are those of the ring buffer itself. -/
theorem refines_fifo (hSize : 2 ≤ size) {ops : Operations α (Option α) (RingBuffer α)}
    (hPush : ∀ q x, ops.push q x = ((q.enqueue x).1, enqueueStatus (q.enqueue x).2))
    (hPop : ∀ q, ops.pop q = (q.dequeue.map Prod.fst, (q.dequeue.map Prod.snd).getD q))
    (hIsEmpty : ∀ q, ops.isEmpty q = q.isEmpty)
    (hClear : ∀ q, ops.clear q = ⟨0, 0, q.size, q.buffer⟩) :
    Refines ops (fifo (size - 1) id) (Fits size) contents where
  push q x h := by
    rw [hPush]
    exact h.push hSize x id
  pop q h := by
    rw [hPop]
    exact h.pop
  isEmpty q h := by
    rw [hIsEmpty]
    exact h.isEmpty
  clear q h := by
    rw [hClear, h.size_eq]
    exact ⟨Fits.init hSize q.buffer, Fits.contents_init hSize q.buffer⟩

end RingBuffer

open RingBuffer

theorem cbufferPop_eq (b : CBuffer) :
    cbufferPop b = ((b.dequeue.map Prod.fst).getD 255, (b.dequeue.map Prod.snd).getD b) := by
  rw [cbufferPop]
  cases b.dequeue with
  | none => rfl
  | some r => rfl

theorem cbuffer_refines {size : Nat} (hSize : 2 ≤ size) :
    Refines cbufferOperations (fifo (size - 1) fun found => found.getD 255) (Fits size)
      contents where
  push b ch h := h.push hSize ch _
  pop b h := by
    obtain ⟨hFits, hContents, hFound⟩ := h.pop
    simp only [cbufferOperations, cbufferPop_eq]
    exact ⟨hFits, hContents, congrArg (fun found : Option Byte => found.getD 255) hFound⟩
  isEmpty b h := h.isEmpty
  clear b h := by
    obtain ⟨hWellFormed, hKeeps⟩ := h
    subst hKeeps
    exact ⟨Fits.init hSize b.buffer, Fits.contents_init hSize b.buffer⟩

theorem ring_buffers_refine_fifo (size : Nat) (hSize : 2 ≤ size) :
    (∀ array, ActsAsFifo size (fun found => found.getD 255) cbufferOperations
      (cbufferInit array size)) ∧
    (∀ buffer, ActsAsFifo size id commandOperations (initCommandQueue size buffer)) ∧
    ∀ buffer, ActsAsFifo size id sensorOperations (initSensorQueue size buffer) := by
  refine ⟨?_, ?_, ?_⟩
  · intro array
    exact actsAsFifo hSize (cbuffer_refines hSize) array
  · intro buffer
    apply actsAsFifo hSize (refines_fifo hSize _ _ _ _) buffer
    · exact fun q command => rfl
    · exact fun q => rfl
    · exact fun q => rfl
    · exact fun q => rfl
  · intro buffer
    apply actsAsFifo hSize (refines_fifo hSize _ _ _ _) buffer
    · exact fun q delivery => rfl
    · exact fun q => rfl
    · exact fun q => rfl
    · exact fun q => rfl

theorem ring_buffers_refine_fifo_two :
    2 ≤ 2 ∧ ∀ array, ActsAsFifo 2 (fun found => found.getD 255) cbufferOperations
      (cbufferInit array 2) :=
  ⟨le_rfl, (ring_buffers_refine_fifo 2 le_rfl).1⟩

end TrainKernel.User
