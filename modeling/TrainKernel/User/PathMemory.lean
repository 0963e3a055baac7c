import TrainKernel.Kernel.Utils
import TrainKernel.User.ExpandPath

/-!
# Path buffers in memory

A path buffer as the bytes that it is made of, and the copy of one as the code makes it: two words
are stored, and of each array as many bytes are copied as it has entries. So 36 of 144 entries
arrive, and the copy of a longer path is right only if its other entries were there before.
-/

namespace TrainKernel.User.PathMemory

open Kernel (Word Mem loadWord storeWord wordAt_of_aligned lane_of_aligned)
open Kernel.Utils (Apart storeWord_loadWord loadWord_congr)
open Library.Words (Aligned)

/-- `PathBuffer *`: what it points to begins with a word. -/
abbrev PathBufferPtr := {p : Word // Aligned p}

/-- `sizeof(PathBuffer)`, with pointers and flags of four bytes. -/
def sizeOfPathBuffer : Word := 1160

section Fields

variable (pb : Word)

/-- `&pb->train_num`. -/
def trainNumAt : Word := pb

/-- `&pb->length`. -/
def lengthAt : Word := pb + 4

/-- `pb->tracknodes`. -/
def tracknodesAt : Word := pb + 8

/-- `pb->reverse`. -/
def reverseAt : Word := pb + 584

theorem trainNumAt_eq : trainNumAt pb = pb + 0 := (BitVec.add_zero pb).symm

end Fields

/-- `&array[i]`. -/
def entryAt (array : Word) (i : Nat) : Word := array + BitVec.ofNat 32 (4 * i)

def pathBytes : Word := BitVec.ofNat 32 maxPathLength

def pbcopy (mem : Mem) (dst src : PathBufferPtr) : Word × Mem :=
  if src.1 = 0 ∨ dst.1 = 0 then (-1, mem)
  else
    let mem := storeWord mem (trainNumAt dst) (loadWord mem (trainNumAt src))
    let mem := Kernel.Utils.memcpy mem (tracknodesAt dst) (tracknodesAt src) pathBytes
    let mem := storeWord mem (lengthAt dst) (loadWord mem (lengthAt src))
    let mem := Kernel.Utils.memcpy mem (reverseAt dst) (reverseAt src) pathBytes
    (loadWord mem (lengthAt dst), mem)

section Bytes

variable {mem mem' : Mem} {dst src o n : Word} {S S' : Word → Prop}

/-- Of the buffer at `src` the bytes in `S` have arrived in the one at `dst`. -/
structure Copied (dst src : Word) (S : Word → Prop) (mem mem' : Mem) : Prop where
  copied : ∀ k < sizeOfPathBuffer, S k → mem' (dst + k) = mem (src + k)
  kept : ∀ k < sizeOfPathBuffer, ¬S k → mem' (dst + k) = mem (dst + k)
  source : ∀ k < sizeOfPathBuffer, mem' (src + k) = mem (src + k)

theorem storeWord_eq_memcpy (mem : Mem) (hDst : Aligned dst) (hSrc : Aligned src) :
    storeWord mem dst (loadWord mem src) = Kernel.memcpy mem dst src 4 := by
  funext a
  rw [storeWord_loadWord, wordAt_of_aligned hDst, Kernel.memcpy]
  split_ifs with hIn
  · rw [lane_of_aligned hSrc hIn]
  · rfl

namespace Copied

theorem nothing (mem : Mem) (dst src : Word) : Copied dst src (fun _ => False) mem mem :=
  ⟨fun _ _ hNot => hNot.elim, fun _ _ _ => rfl, fun _ _ => rfl⟩

theorem range (h : Copied dst src S mem mem') (hApart : Apart dst src sizeOfPathBuffer)
    (hRoom : o.toNat + n.toNat ≤ 1160) :
    Copied dst src (fun k => S k ∨ k - o < n) mem (Kernel.memcpy mem' (dst + o) (src + o) n) := by
  have hSize : sizeOfPathBuffer = 1160 := rfl
  have hByte (k : Word) : Kernel.memcpy mem' (dst + o) (src + o) n (dst + k) =
      if k - o < n then mem' (src + k) else mem' (dst + k) := by
    have hOffset : dst + k - (dst + o) = k - o := by bv_omega
    have hBack : src + o + (k - o) = src + k := by bv_omega
    rw [Kernel.memcpy, hOffset, hBack]
  constructor
  · intro k hk hIn
    rw [hByte]
    split_ifs with hRange
    · exact h.source k hk
    · exact h.copied k hk (hIn.resolve_right hRange)
  · intro k hk hOut
    obtain ⟨hBefore, hRange⟩ := not_or.mp hOut
    rw [hByte, if_neg hRange]
    exact h.kept k hk hBefore
  · intro k hk
    have hOutside : ¬src + k - (dst + o) < n := by
      intro hIn
      apply hApart (o + (src + k - (dst + o))) (by bv_omega) k hk
      bv_omega
    rw [Kernel.memcpy, if_neg hOutside]
    exact h.source k hk

theorem congr (h : Copied dst src S mem mem') (hSame : ∀ k < sizeOfPathBuffer, S k ↔ S' k) :
    Copied dst src S' mem mem' where
  copied k hk hIn := h.copied k hk ((hSame k hk).mpr hIn)
  kept k hk hOut := h.kept k hk (mt (hSame k hk).mp hOut)
  source := h.source

theorem loadWord_copied (h : Copied dst src S mem mem') (hDst : Aligned (dst + o))
    (hSrc : Aligned (src + o)) (hRoom : o.toNat + 4 ≤ 1160) (hIn : ∀ d < 4, S (o + d)) :
    loadWord mem' (dst + o) = loadWord mem (src + o) := by
  have hSize : sizeOfPathBuffer = 1160 := rfl
  apply loadWord_congr
  intro d hd
  rw [lane_of_aligned hDst hd, lane_of_aligned hSrc hd, BitVec.add_assoc, BitVec.add_assoc]
  exact h.copied (o + d) (by bv_omega) (hIn d hd)

theorem loadWord_kept (h : Copied dst src S mem mem') (hDst : Aligned (dst + o))
    (hRoom : o.toNat + 4 ≤ 1160) (hOut : ∀ d < 4, ¬S (o + d)) :
    loadWord mem' (dst + o) = loadWord mem (dst + o) := by
  have hSize : sizeOfPathBuffer = 1160 := rfl
  apply loadWord_congr
  intro d hd
  rw [lane_of_aligned hDst hd, BitVec.add_assoc]
  exact h.kept (o + d) (by bv_omega) (hOut d hd)

end Copied

/-- The two words in front of the arrays and a quarter of each array. -/
def Arrives (k : Word) : Prop := k < 152 ∨ k - 584 < 144

end Bytes

section Pointers

variable {mem mem' : Mem} {dst src : PathBufferPtr} {o : Word}

theorem pbcopy_copied (mem : Mem) (hDst : dst.1 ≠ 0) (hSrc : src.1 ≠ 0)
    (hApart : Apart dst src sizeOfPathBuffer) :
    Copied dst src Arrives mem (pbcopy mem dst src).2 := by
  have hSize : sizeOfPathBuffer = 1160 := rfl
  have hBytes : pathBytes = 144 := rfl
  have hArriving : Kernel.Utils.arriving 144 = 144 := rfl
  have hArray (o : Word) (ho : o.toNat + 144 ≤ 1160) : Apart (dst.1 + o) (src.1 + o) 144 := by
    intro i hi j hj
    rw [BitVec.add_assoc, BitVec.add_assoc]
    exact hApart (o + i) (by bv_omega) (o + j) (by bv_omega)
  have hField (pb : PathBufferPtr) (o : Word) (ho : Aligned o) : Aligned (pb.1 + o) := pb.2.add ho
  rw [pbcopy, if_neg (not_or.mpr ⟨hSrc, hDst⟩)]
  dsimp only
  rw [hBytes, trainNumAt_eq, trainNumAt_eq, tracknodesAt, tracknodesAt, lengthAt, lengthAt,
    reverseAt, reverseAt, storeWord_eq_memcpy _ (hField dst 0 rfl) (hField src 0 rfl),
    storeWord_eq_memcpy _ (hField dst 4 rfl) (hField src 4 rfl),
    Kernel.Utils.memcpy_eq _ (hArray 8 (by decide)) (hField dst 8 rfl) (hField src 8 rfl),
    Kernel.Utils.memcpy_eq _ (hArray 584 (by decide)) (hField dst 584 rfl) (hField src 584 rfl),
    hArriving]
  have hAll := ((((Copied.nothing mem dst src).range (o := 0) (n := 4) hApart (by decide)).range
    (o := 8) (n := 144) hApart (by decide)).range (o := 4) (n := 4) hApart (by decide)).range
    (o := 584) (n := 144) hApart (by decide)
  apply hAll.congr
  intro k hk
  rw [Arrives, false_or]
  bv_omega

theorem aligned_entryAt {array : Word} (h : Aligned array) (i : Nat) : Aligned (entryAt array i) :=
  h.add (by
    simp only [Aligned]
    bv_omega)

theorem Copied.entry_arrives (h : Copied dst src Arrives mem mem') (ho : o = 8 ∨ o = 584) {i : Nat}
    (hi : i < 36) :
    loadWord mem' (entryAt (dst.1 + o) i) = loadWord mem (entryAt (src.1 + o) i) := by
  have hOffset : (BitVec.ofNat 32 (4 * i)).toNat = 4 * i := by bv_omega
  have hArray (pb : PathBufferPtr) : Aligned (pb.1 + o) :=
    pb.2.add (by rcases ho with rfl | rfl <;> rfl)
  have hDst := aligned_entryAt (hArray dst) i
  have hSrc := aligned_entryAt (hArray src) i
  rw [entryAt, BitVec.add_assoc] at hDst hSrc
  rw [entryAt, entryAt, BitVec.add_assoc, BitVec.add_assoc]
  generalize BitVec.ofNat 32 (4 * i) = e at hOffset hDst hSrc ⊢
  apply h.loadWord_copied hDst hSrc
  · bv_omega
  · intro d hd
    rw [Arrives]
    bv_omega

theorem Copied.entry_stays (h : Copied dst src Arrives mem mem') (ho : o = 8 ∨ o = 584) {i : Nat}
    (hi : 36 ≤ i) (hEnd : i < 144) :
    loadWord mem' (entryAt (dst.1 + o) i) = loadWord mem (entryAt (dst.1 + o) i) := by
  have hOffset : (BitVec.ofNat 32 (4 * i)).toNat = 4 * i := by bv_omega
  have hArray : Aligned (dst.1 + o) := dst.2.add (by rcases ho with rfl | rfl <;> rfl)
  have hDst := aligned_entryAt hArray i
  rw [entryAt, BitVec.add_assoc] at hDst
  rw [entryAt, BitVec.add_assoc]
  generalize BitVec.ofNat 32 (4 * i) = e at hOffset hDst ⊢
  apply h.loadWord_kept hDst
  · bv_omega
  · intro d hd
    rw [Arrives]
    bv_omega

theorem Copied.header (h : Copied dst src Arrives mem mem') (ho : o = 0 ∨ o = 4) :
    loadWord mem' (dst.1 + o) = loadWord mem (src.1 + o) := by
  have hAligned (pb : PathBufferPtr) : Aligned (pb.1 + o) :=
    pb.2.add (by rcases ho with rfl | rfl <;> rfl)
  apply h.loadWord_copied (hAligned dst) (hAligned src)
  · bv_omega
  · intro d hd
    rw [Arrives]
    bv_omega

end Pointers

def pathLength (mem : Mem) (pb : Word) : Int := (loadWord mem (lengthAt pb)).toInt

/-- What the copy of a path is to have. -/
structure CopiesPath (mem mem' : Mem) (dst src : Word) : Prop where
  trainNum : loadWord mem' (trainNumAt dst) = loadWord mem (trainNumAt src)
  length : loadWord mem' (lengthAt dst) = loadWord mem (lengthAt src)
  tracknodes : ∀ i : Nat, i < pathLength mem src →
    loadWord mem' (entryAt (tracknodesAt dst) i) = loadWord mem (entryAt (tracknodesAt src) i)
  reverse : ∀ i : Nat, i < pathLength mem src →
    loadWord mem' (entryAt (reverseAt dst) i) = loadWord mem (entryAt (reverseAt src) i)

def SameEntry (mem : Mem) (dst src : Word) (i : Nat) : Prop :=
  loadWord mem (entryAt (tracknodesAt dst) i) = loadWord mem (entryAt (tracknodesAt src) i) ∧
    loadWord mem (entryAt (reverseAt dst) i) = loadWord mem (entryAt (reverseAt src) i)

section Paths

variable {mem mem' : Mem} {dst src : PathBufferPtr}

theorem pbcopy_self (mem : Mem) (pb : PathBufferPtr) : (pbcopy mem pb pb).2 = mem := by
  have hTrainNum : Aligned (trainNumAt pb) := pb.2
  have hLength : Aligned (lengthAt pb) := pb.2.add rfl
  have hTracknodes : Aligned (tracknodesAt pb) := pb.2.add rfl
  have hReverse : Aligned (reverseAt pb) := pb.2.add rfl
  rw [pbcopy]
  split_ifs
  · rfl
  · dsimp only
    rw [Kernel.Utils.memcpy_self hReverse, Kernel.Utils.memcpy_self hTracknodes,
      Kernel.Utils.storeWord_self hTrainNum, Kernel.Utils.storeWord_self hLength]

theorem Copied.copiesPath_iff (h : Copied dst src Arrives mem mem')
    (hLength : pathLength mem src ≤ maxPathLength) : CopiesPath mem mem' dst src ↔
      ∀ i : Nat, maxPathLength / 4 ≤ i → i < pathLength mem src → SameEntry mem dst src i := by
  have hQuarter : maxPathLength / 4 = 36 := rfl
  have hMax : maxPathLength = 144 := rfl
  rw [hQuarter]
  rw [hMax] at hLength
  constructor
  · intro hCopies i hi hPath
    have hEnd : i < 144 := by omega
    constructor
    · exact (h.entry_stays (Or.inl rfl) hi hEnd).symm.trans (hCopies.tracknodes i hPath)
    · exact (h.entry_stays (Or.inr rfl) hi hEnd).symm.trans (hCopies.reverse i hPath)
  · intro hSame
    refine ⟨?_, h.header (Or.inr rfl), ?_, ?_⟩
    · rw [trainNumAt_eq, trainNumAt_eq]
      exact h.header (Or.inl rfl)
    · intro i hPath
      rcases Nat.lt_or_ge i 36 with hArrives | hStays
      · exact h.entry_arrives (Or.inl rfl) hArrives
      · exact (h.entry_stays (Or.inl rfl) hStays (by omega)).trans (hSame i hStays hPath).1
    · intro i hPath
      rcases Nat.lt_or_ge i 36 with hArrives | hStays
      · exact h.entry_arrives (Or.inr rfl) hArrives
      · exact (h.entry_stays (Or.inr rfl) hStays (by omega)).trans (hSame i hStays hPath).2

/-- A node is the address that points to it. -/
def pointer (p : Word) : Option Word := if p = 0 then none else some p

def readBuffer (mem : Mem) (pb : Word) : PathBuffer Word where
  trainNum := (loadWord mem (trainNumAt pb)).toInt
  length := pathLength mem pb
  tracknodes := fun i =>
    if i < maxPathLength then pointer (loadWord mem (entryAt (tracknodesAt pb) i)) else none
  reverse := fun i => decide (i < maxPathLength ∧ loadWord mem (entryAt (reverseAt pb) i) ≠ 0)

/-- On values, the copy takes the first quarter of each array. -/
theorem readBuffer_pbcopy (mem : Mem) (hDst : dst.1 ≠ 0) (hSrc : src.1 ≠ 0)
    (hApart : Apart dst src sizeOfPathBuffer) : readBuffer (pbcopy mem dst src).2 dst =
      User.pbcopy (readBuffer mem dst) (readBuffer mem src) := by
  have hCopied := pbcopy_copied mem hDst hSrc hApart
  have hQuarter : maxPathLength / 4 = 36 := rfl
  have hMax : maxPathLength = 144 := rfl
  rw [User.pbcopy, readBuffer, PathBuffer.mk.injEq]
  refine ⟨?_, ?_, ?_, ?_⟩
  · rw [trainNumAt_eq, hCopied.header (Or.inl rfl), ← trainNumAt_eq]
    rfl
  · exact congrArg BitVec.toInt (hCopied.header (Or.inr rfl))
  · funext i
    rw [copyEntries, hQuarter]
    split_ifs with hIn hArrives hArrives
    · rw [tracknodesAt, hCopied.entry_arrives (Or.inl rfl) hArrives]
      exact (if_pos hIn).symm
    · rw [tracknodesAt, hCopied.entry_stays (Or.inl rfl) (not_lt.mp hArrives) hIn]
      exact (if_pos hIn).symm
    · omega
    · exact (if_neg hIn).symm
  · funext i
    rw [copyEntries, hQuarter]
    split_ifs with hArrives
    · rw [reverseAt, hCopied.entry_arrives (Or.inr rfl) hArrives]
      rfl
    · rcases Nat.lt_or_ge i maxPathLength with hIn | hOut
      · rw [reverseAt, hCopied.entry_stays (Or.inr rfl) (not_lt.mp hArrives) hIn]
        rfl
      · have hNot (b : Prop) : ¬(i < maxPathLength ∧ b) := fun h => absurd h.1 (not_lt.mpr hOut)
        rw [decide_eq_false (hNot _)]
        exact (decide_eq_false (hNot _)).symm

end Paths

/-- The copy of a path is right exactly if what lies behind a quarter of the arrays was there
before; of a path with at most 36 nodes nothing does. -/
theorem pbcopy_copiesPath_iff (mem : Mem) (dst src : PathBufferPtr) (hDst : dst.1 ≠ 0)
    (hSrc : src.1 ≠ 0) (hBuffers : dst = src ∨ Apart dst src sizeOfPathBuffer)
    (hLength : pathLength mem src ≤ maxPathLength) :
    CopiesPath mem (pbcopy mem dst src).2 dst src ↔
      ∀ i : Nat, maxPathLength / 4 ≤ i → i < pathLength mem src → SameEntry mem dst src i := by
  rcases hBuffers with rfl | hApart
  · rw [pbcopy_self]
    have hCopies : CopiesPath mem mem dst dst := ⟨rfl, rfl, fun _ _ => rfl, fun _ _ => rfl⟩
    exact iff_of_true hCopies fun _ _ _ => ⟨rfl, rfl⟩
  · exact (pbcopy_copied mem hDst hSrc hApart).copiesPath_iff hLength

def firstBuffer : PathBufferPtr := ⟨0x1000, rfl⟩
def secondBuffer : PathBufferPtr := ⟨0x2000, rfl⟩

/-- A path of 37 nodes, the last of which is not null. -/
def longPath : Mem := storeWord (storeWord (fun _ => 0) (lengthAt firstBuffer) 37)
  (entryAt (tracknodesAt firstBuffer) 36) 1

theorem apart_buffers : Apart secondBuffer firstBuffer sizeOfPathBuffer := by
  have hSize : sizeOfPathBuffer = 1160 := rfl
  have hFirst : firstBuffer.1 = 0x1000 := rfl
  have hSecond : secondBuffer.1 = 0x2000 := rfl
  intro i hi j hj
  rw [hFirst, hSecond]
  bv_omega

/-- The last node of a path of 37 is not copied. -/
theorem pbcopy_not_copiesPath : ¬∀ mem (dst src : PathBufferPtr), dst.1 ≠ 0 → src.1 ≠ 0 →
    (dst = src ∨ Apart dst src sizeOfPathBuffer) → pathLength mem src ≤ maxPathLength →
    CopiesPath mem (pbcopy mem dst src).2 dst src := by
  intro hAll
  have hCopies := hAll longPath secondBuffer firstBuffer (by decide) (by decide)
    (Or.inr apart_buffers) (by decide)
  have hCopied : Copied secondBuffer firstBuffer Arrives longPath
      (pbcopy longPath secondBuffer firstBuffer).2 :=
    pbcopy_copied longPath (by decide) (by decide) apart_buffers
  have hSame := (hCopied.copiesPath_iff (by decide)).mp hCopies 36 (by decide) (by decide)
  exact absurd hSame.1 (by decide)

def shortPath : Mem := storeWord (storeWord (fun _ => 0) (lengthAt firstBuffer) 36)
  (entryAt (tracknodesAt firstBuffer) 35) 1

theorem pbcopy_copiesPath_iff_short : loadWord (pbcopy shortPath secondBuffer firstBuffer).2
    (entryAt (tracknodesAt secondBuffer) 35) = 1 := by
  have hNothing (i : Nat) (hi : maxPathLength / 4 ≤ i)
      (hPath : i < pathLength shortPath firstBuffer) :
      SameEntry shortPath secondBuffer firstBuffer i := by
    have hLength : pathLength shortPath firstBuffer = 36 := by decide
    have hQuarter : maxPathLength / 4 = 36 := rfl
    omega
  have hCopies := (pbcopy_copiesPath_iff shortPath secondBuffer firstBuffer (by decide)
    (by decide) (Or.inr apart_buffers) (by decide)).mpr hNothing
  exact (hCopies.tracknodes 35 (by decide)).trans (by decide)

end TrainKernel.User.PathMemory
