import Mathlib.Data.List.TakeWhile
import Mathlib.Logic.Function.Basic
import TrainKernel.User.CharBuffer

/-!
# The name server

Tasks register under a name and are found by it. Names are arrays of 32 characters; in a request
the type of the request stands behind the name, in the table the task does.
-/

namespace TrainKernel.User

open Function

def nsMaxName : Nat := 32
def nsMaxRegistSize : Nat := 32

/-- Both strings have a NUL, at the latest in the word that stands behind a name. -/
def strcmp : List Byte → List Byte → Int
  | c :: dst, d :: src =>
    if c = d then
      if c = 0 then 0 else strcmp dst src
    else if c < d then -1 else 1
  | _, _ => 1

/-- What `strncpy` leaves in the `n` characters at its destination. -/
def strncpy : List Byte → Nat → List Byte
  | _, 0 => []
  | [], n + 1 => List.replicate (n + 1) 0
  | c :: src, n + 1 => if c = 0 then List.replicate (n + 1) 0 else c :: strncpy src n

/-- The string at the start of the characters. -/
def stringAt (bytes : List Byte) : List Byte := bytes.takeWhile (· ≠ 0)

def wordBytes (w : BitVec 32) : List Byte :=
  [w.extractLsb' 0 8, w.extractLsb' 8 8, w.extractLsb' 16 8, w.extractLsb' 24 8]

variable {dst src rest : List Byte} {c d : Byte} {n : Nat}

theorem stringAt_cons_zero : stringAt (0 :: src) = [] :=
  List.takeWhile_cons_of_neg (by decide)

theorem stringAt_cons (h : c ≠ 0) : stringAt (c :: src) = c :: stringAt src :=
  List.takeWhile_cons_of_pos (decide_eq_true h)

theorem stringAt_ne (h : c ≠ d) : stringAt (c :: dst) ≠ stringAt (d :: src) := by
  intro hSame
  by_cases hZero : c = 0
  · subst hZero
    rw [stringAt_cons_zero, stringAt_cons (Ne.symm h)] at hSame
    cases hSame
  · by_cases hZero' : d = 0
    · subst hZero'
      rw [stringAt_cons_zero, stringAt_cons hZero] at hSame
      cases hSame
    · rw [stringAt_cons hZero, stringAt_cons hZero'] at hSame
      exact h (List.cons.inj hSame).1

theorem strcmp_eq_zero_iff (hDst : 0 ∈ dst) (hSrc : 0 ∈ src) :
    strcmp dst src = 0 ↔ stringAt dst = stringAt src := by
  induction dst generalizing src with
  | nil => cases hDst
  | cons c dst ih =>
    cases src with
    | nil => cases hSrc
    | cons d src =>
      rw [strcmp]
      split_ifs with hSame hZero hLess
      · subst hSame hZero
        exact iff_of_true rfl (stringAt_cons_zero.trans stringAt_cons_zero.symm)
      · subst hSame
        have hDst' := (List.mem_cons.mp hDst).resolve_left (Ne.symm hZero)
        have hSrc' := (List.mem_cons.mp hSrc).resolve_left (Ne.symm hZero)
        rw [ih hDst' hSrc', stringAt_cons hZero, stringAt_cons hZero, List.cons.injEq]
        exact (and_iff_right rfl).symm
      · exact iff_of_false (by decide) (stringAt_ne hSame)
      · exact iff_of_false (by decide) (stringAt_ne hSame)

theorem stringAt_append (h : 0 ∈ src) : stringAt (src ++ rest) = stringAt src := by
  induction src with
  | nil => cases h
  | cons c src ih =>
    by_cases hZero : c = 0
    · subst hZero
      exact stringAt_cons_zero.trans stringAt_cons_zero.symm
    · have hMem := (List.mem_cons.mp h).resolve_left (Ne.symm hZero)
      rw [List.cons_append, stringAt_cons hZero, stringAt_cons hZero, ih hMem]

theorem length_strncpy (src : List Byte) (n : Nat) : (strncpy src n).length = n := by
  induction n generalizing src with
  | zero => cases src <;> rfl
  | succ n ih =>
    cases src with
    | nil => exact List.length_replicate
    | cons c src =>
      rw [strncpy]
      split_ifs
      · exact List.length_replicate
      · exact congrArg (· + 1) (ih src)

/-- A string that fits with its NUL is copied. -/
theorem strncpy_string (h : 0 ∈ src) :
    0 ∈ strncpy src src.length ∧ stringAt (strncpy src src.length) = stringAt src := by
  induction src with
  | nil => cases h
  | cons c src ih =>
    rw [List.length_cons, strncpy]
    split_ifs with hZero
    · subst hZero
      exact ⟨List.mem_cons_self, stringAt_cons_zero.trans stringAt_cons_zero.symm⟩
    · obtain ⟨hMem, hString⟩ := ih ((List.mem_cons.mp h).resolve_left (Ne.symm hZero))
      rw [stringAt_cons hZero, stringAt_cons hZero, hString]
      exact ⟨List.mem_cons_of_mem _ hMem, rfl⟩

structure NSRequest where
  name : List Byte
  type : BitVec 32
  length_name : name.length = nsMaxName

def registerAs : BitVec 32 := 0
def whoIs : BitVec 32 := 1

def NSRequest.bytes (request : NSRequest) : List Byte := request.name ++ wordBytes request.type

structure Registration where
  name : List Byte
  tid : Nat
  length_name : name.length = nsMaxName

def Registration.bytes (r : Registration) : List Byte :=
  r.name ++ wordBytes (BitVec.ofNat 32 r.tid)

/-- The entries from `numRegistered` on are not in use. -/
structure Nameserver where
  registrations : Nat → Registration
  numRegistered : Nat

def initNameserver (registrations : Nat → Registration) : Nameserver := ⟨registrations, 0⟩

inductive NSFault where
  | badRequest
  | outOfBounds
deriving DecidableEq, Repr

def nsSuccess : Int := 0
def nsError : Int := -1
def nsFull : Int := -2
def nsNoTask : Int := -4

/-- A message: who sent it, what length was received, and what then stands in the request. -/
structure NSMessage where
  senderTid : Nat
  recvSize : Int
  request : NSRequest

def sizeofNSRequest : Int := 36

/-- The entries are compared with a name at address 0, of which nothing is known. -/
def serveRegisterAs (matchesNull : (Nat → Registration) → Nat → Bool) (s : Nameserver)
    (senderTid : Nat) (request : NSRequest) : Except NSFault (Nameserver × Int) :=
  if s.numRegistered > nsMaxRegistSize then .ok (s, nsFull)
  else
    match (List.range s.numRegistered).find? (matchesNull s.registrations) with
    | some i =>
      let entry := { s.registrations i with tid := senderTid }
      .ok ({ s with registrations := update s.registrations i entry }, nsSuccess)
    | none =>
      if s.numRegistered < nsMaxRegistSize then
        let entry := ⟨strncpy request.name nsMaxName, senderTid, length_strncpy ..⟩
        .ok (⟨update s.registrations s.numRegistered entry, s.numRegistered + 1⟩, nsSuccess)
      else .error .outOfBounds

def serveWhoIs (s : Nameserver) (request : NSRequest) : Int :=
  match (List.range s.numRegistered).find? fun i =>
      strcmp (s.registrations i).bytes request.bytes = 0 with
  | some i => (s.registrations i).tid
  | none => nsNoTask

/-- The state after a message, and the answer to it. -/
def nameserver (matchesNull : (Nat → Registration) → Nat → Bool) (s : Nameserver)
    (m : NSMessage) : Except NSFault (Nameserver × Int) :=
  if m.recvSize ≠ sizeofNSRequest then .ok (s, nsError)
  else if m.request.type = registerAs then serveRegisterAs matchesNull s m.senderTid m.request
  else if m.request.type = whoIs then .ok (s, serveWhoIs s m.request)
  else .error .badRequest

end TrainKernel.User
