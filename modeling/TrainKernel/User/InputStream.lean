import Mathlib.Data.Finset.Card
import TrainKernel.User.CharServers

/-!
# What comes in on a line

A task that asks for a character waits in one buffer, a character that nobody has asked for in
another. One of the two buffers is always empty.
-/

namespace TrainKernel.User

open Library.Runs

/-- The tasks that run a server for the characters that come in. -/
inductive InTask where
  | monitor
  | train
deriving DecidableEq

def InTask.bufferSize : InTask → Nat
  | .monitor => monitorBufferSize
  | .train => trainBufferSize

def InTask.serve : InTask → InServer → Nat → IOReq → Option (InServer × List IOOutput)
  | .monitor => monitorInServer
  | .train => trainInServer

/-- The characters that a message brings. -/
def IOReq.received : IOReq → List Byte
  | .notification data => [charOfData data]
  | _ => []

/-- The task that asks for a character, if the message does. -/
def askedBy : Nat × IOReq → List Nat
  | (tid, .getChar) => [tid]
  | _ => []

def IOOutput.given : IOOutput → List (Nat × Byte)
  | .replyChar tid c => [(tid, c)]
  | _ => []

def givenIn (out : List IOOutput) : List (Nat × Byte) := out.flatMap IOOutput.given

@[simp] theorem givenIn_nil : givenIn [] = [] := rfl

@[simp] theorem givenIn_cons (o : IOOutput) (out : List IOOutput) :
    givenIn (o :: out) = o.given ++ givenIn out := rfl

@[simp] theorem givenIn_append (out out' : List IOOutput) :
    givenIn (out ++ out') = givenIn out ++ givenIn out' := List.flatMap_append

variable {tid size : Nat} {c : Byte} {s s' : InServer} {tids : List Nat} {chars : List Byte}
variable {r : InServer × List IOOutput} {out out' : List IOOutput}

def InServer.waiting (s : InServer) : List Nat := s.taskBuffer.contents.map BitVec.toNat

structure InServer.Sound (size : Nat) (s : InServer) : Prop where
  tasks : s.taskBuffer.Sized 128
  chars : s.charBuffer.Sized size
  one_empty : s.waiting = [] ∨ s.charBuffer.contents = []

/-- From one state to another, with the tasks and the characters taken in on the way. -/
structure Gives (size : Nat) (s : InServer) (tids : List Nat) (chars : List Byte)
    (r : InServer × List IOOutput) : Prop where
  sound : r.1.Sound size
  tasks : s.waiting ++ tids = (givenIn r.2).map Prod.fst ++ r.1.waiting
  chars : s.charBuffer.contents ++ chars =
    (givenIn r.2).map Prod.snd ++ r.1.charBuffer.contents

theorem InServer.Sound.noTask_iff (h : s.Sound size) :
    cbufferIsEmpty s.taskBuffer ↔ s.waiting = [] := by
  rw [h.tasks.isEmpty_iff, InServer.waiting, List.map_eq_nil_iff]

theorem giveChar_gives (h : s.Sound size)
    (hRoom : cbufferIsEmpty s.taskBuffer → (cbufferPush s.charBuffer c).2 = 0) :
    Gives size s [] [c] (giveChar s c) := by
  rw [giveChar]
  split_ifs with hEmpty
  · have hContents := h.chars.contents_push (hRoom hEmpty)
    exact ⟨⟨h.tasks, h.chars.push c, Or.inl (h.noTask_iff.mp hEmpty)⟩, List.append_nil _,
      hContents.symm⟩
  · have hWaits : s.waiting ≠ [] := mt h.noTask_iff.mpr hEmpty
    have hNone := h.one_empty.resolve_left hWaits
    obtain ⟨hSized, hNext⟩ := h.tasks.pop (mt List.map_eq_nil_iff.mpr hWaits)
    constructor
    · exact ⟨hSized, h.chars, Or.inr hNone⟩
    · simp [InServer.waiting, hNext, IOOutput.given]
    · simp [hNone, IOOutput.given]

theorem takeChar_gives (h : s.Sound size) (hTid : tid < 2 ^ 8)
    (hRoom : cbufferIsEmpty s.charBuffer →
      (cbufferPush s.taskBuffer (BitVec.ofNat 8 tid)).2 = 0) :
    Gives size s [tid] [] (takeChar s tid) := by
  rw [takeChar]
  split_ifs with hEmpty
  · have hContents := h.tasks.contents_push (hRoom hEmpty)
    have hChar : (BitVec.ofNat 8 tid).toNat = tid := by
      rw [BitVec.toNat_ofNat, Nat.mod_eq_of_lt hTid]
    constructor
    · exact ⟨h.tasks.push _, h.chars, Or.inr (h.chars.isEmpty_iff.mp hEmpty)⟩
    · simp only [InServer.waiting, hContents, List.map_append, List.map_singleton, hChar]
      rfl
    · exact List.append_nil _
  · have hSome := mt h.chars.isEmpty_iff.mpr hEmpty
    have hNone := h.one_empty.resolve_right hSome
    obtain ⟨hSized, hNext⟩ := h.chars.pop hSome
    constructor
    · exact ⟨h.tasks, hSized, Or.inl hNone⟩
    · have hNone' : InServer.waiting { s with charBuffer := (cbufferPop s.charBuffer).2 } = [] :=
        hNone
      simp [hNone, hNone', IOOutput.given]
    · simp [hNext, IOOutput.given]

/-- Replies without a character do not count. -/
theorem Gives.reply (h : Gives size s tids chars (s', out))
    (hGiven : givenIn out' = givenIn out) : Gives size s tids chars (s', out') := by
  refine ⟨h.sound, ?_, ?_⟩
  · rw [hGiven]
    exact h.tasks
  · rw [hGiven]
    exact h.chars

def inMachine (server : InTask) (taskb charb : Nat → Byte) :
    Machine InServer (Nat × IOReq) (List IOOutput) where
  start := initInServer taskb charb server.bufferSize
  step s i s' out := server.serve s i.1 i.2 = some (s', out)

def IOHistory.asked (h : IOHistory) : List Nat := h.flatMap fun round => askedBy round.1

def IOHistory.received (h : IOHistory) : List Byte := h.flatMap (·.1.2.received)

def IOHistory.given (h : IOHistory) : List (Nat × Byte) := h.flatMap fun round => givenIn round.2

/-- The characters that come do not overflow the buffer. A task asks for another character when
it has got all that it asked for before. -/
def AsksIn (server : InTask) (tasks : Finset Nat) (h : IOHistory) (s : InServer) :
    Nat × IOReq → Prop
  | (_, .notification data) =>
    cbufferIsEmpty s.taskBuffer → (cbufferPush s.charBuffer (charOfData data)).2 = 0
  | (tid, .getChar) => tid ∈ tasks ∧ h.asked.count tid = (h.given.map Prod.fst).count tid
  | (_, .echo) => server = .monitor
  | _ => False

variable {server : InTask} {tasks : Finset Nat} {taskb charb : Nat → Byte} {h : IOHistory}
variable {i : Nat × IOReq}

/-- What was asked for and what was received, against what was given. -/
structure Balanced (size : Nat) (tasks : Finset Nat) (h : IOHistory) (s : InServer) : Prop where
  sound : s.Sound size
  asked : h.asked = h.given.map Prod.fst ++ s.waiting
  received : h.received = h.given.map Prod.snd ++ s.charBuffer.contents
  nodup : s.waiting.Nodup
  mem : ∀ tid ∈ s.waiting, tid ∈ tasks

namespace Balanced

variable (hBalanced : Balanced size tasks h s)
include hBalanced

theorem notMem_waiting (hFree : h.asked.count tid = (h.given.map Prod.fst).count tid) :
    tid ∉ s.waiting := by
  rw [hBalanced.asked, List.count_append] at hFree
  rw [← List.count_eq_zero]
  omega

theorem asks_nodup (hAsks : AsksIn server tasks h s i) : (s.waiting ++ askedBy i).Nodup := by
  obtain ⟨tid, req⟩ := i
  cases req with
  | getChar =>
    have hFree := hBalanced.notMem_waiting hAsks.2
    exact List.nodup_append_comm.mp (List.nodup_cons.mpr ⟨hFree, hBalanced.nodup⟩)
  | _ => exact (List.append_nil _).symm ▸ hBalanced.nodup

theorem asks_mem (hAsks : AsksIn server tasks h s i) :
    ∀ t ∈ s.waiting ++ askedBy i, t ∈ tasks := by
  obtain ⟨tid, req⟩ := i
  intro t hMem
  cases List.mem_append.mp hMem with
  | inl hWaits => exact hBalanced.mem t hWaits
  | inr hAsked =>
    cases req with
    | getChar => exact List.mem_singleton.mp hAsked ▸ hAsks.1
    | _ => cases hAsked

/-- The tasks that wait leave room for one more. -/
theorem room (hFew : tasks.card ≤ 127) (hAsks : AsksIn server tasks h s (tid, .getChar)) :
    (cbufferPush s.taskBuffer (BitVec.ofNat 8 tid)).2 = 0 := by
  have hNodup : (s.waiting ++ [tid]).Nodup := hBalanced.asks_nodup hAsks
  have hSubset : (s.waiting ++ [tid]).toFinset ⊆ tasks := fun t hMem =>
    hBalanced.asks_mem hAsks t (List.mem_toFinset.mp hMem)
  have hCard := Finset.card_le_card hSubset
  rw [List.toFinset_card_of_nodup hNodup, List.length_append, InServer.waiting, List.length_map,
    List.length_singleton] at hCard
  rw [hBalanced.sound.tasks.push_kept_iff]
  omega

theorem given_eq : h.given = h.asked.zip h.received := by
  have hZip : s.waiting.zip s.charBuffer.contents = [] := by
    cases hBalanced.sound.one_empty with
    | inl hNone => rw [hNone, List.zip_nil_left]
    | inr hNone => rw [hNone, List.zip_nil_right]
  have hGiven := List.zip_unzip h.given
  rw [List.unzip_eq_map] at hGiven
  rw [hBalanced.asked, hBalanced.received, List.zip_append (by simp), hZip, List.append_nil,
    hGiven]

theorem serve (hTids : ∀ tid ∈ tasks, tid < 128) (hFew : tasks.card ≤ 127)
    (hAsks : AsksIn server tasks h s i) :
    ∃ r, server.serve s i.1 i.2 = some r ∧ Gives size s (askedBy i) i.2.received r := by
  obtain ⟨tid, req⟩ := i
  cases req with
  | notification data =>
    cases server with
    | monitor =>
      have hSound : InServer.Sound size { s with courierTid := 0 } :=
        ⟨hBalanced.sound.tasks, hBalanced.sound.chars, hBalanced.sound.one_empty⟩
      have hGives := giveChar_gives hSound hAsks
      have hEchoed (out : List IOOutput) : givenIn (.reply tid ::
          (if s.courierTid ≠ 0 then [IOOutput.replyData s.courierTid data] else []) ++ out) =
            givenIn out := by
        split_ifs
        · rfl
        · rfl
      have hReplied := hGives.reply (hEchoed _)
      exact ⟨_, rfl, ⟨hReplied.sound, hReplied.tasks, hReplied.chars⟩⟩
    | train =>
      have hGives := giveChar_gives hBalanced.sound hAsks
      exact ⟨_, rfl, hGives.reply rfl⟩
  | getChar =>
    have hTid : tid < 2 ^ 8 := (hTids tid hAsks.1).trans (by decide)
    have hGives := takeChar_gives hBalanced.sound hTid fun _ => hBalanced.room hFew hAsks
    cases server
    · exact ⟨_, rfl, hGives⟩
    · exact ⟨_, rfl, hGives⟩
  | echo =>
    obtain rfl := hAsks
    have hSound := hBalanced.sound
    exact ⟨_, rfl, ⟨⟨hSound.tasks, hSound.chars, hSound.one_empty⟩, List.append_nil _,
      List.append_nil _⟩⟩
  | putChar data => exact hAsks.elim
  | putStr str => exact hAsks.elim
  | putRawStr str => exact hAsks.elim

end Balanced

theorem in_run_balanced (hTids : ∀ tid ∈ tasks, tid < 128) (hFew : tasks.card ≤ 127)
    (hRun : (inMachine server taskb charb).Run (AsksIn server tasks) h s) :
    Balanced server.bufferSize tasks h s := by
  apply hRun.invariant (Balanced server.bufferSize tasks)
  · have hSize : 0 < server.bufferSize := by cases server <;> decide
    have hNone : (cbufferInit taskb 128).contents = [] :=
      CBuffer.Sized.contents_init taskb (by decide)
    have hWaiting : (initInServer taskb charb server.bufferSize).waiting = [] :=
      congrArg (List.map BitVec.toNat) hNone
    have hChars := CBuffer.Sized.contents_init charb hSize
    constructor
    · exact ⟨.init taskb (by decide), .init charb hSize, Or.inl hWaiting⟩
    · exact hWaiting.symm
    · exact hChars.symm
    · simp [inMachine, hWaiting]
    · simp [inMachine, hWaiting]
  · intro h s i s' out hBalanced hAsks hStep
    obtain ⟨r, hServe, hGives⟩ := hBalanced.serve hTids hFew hAsks
    obtain rfl : r = (s', out) := Option.some.inj (hServe.symm.trans hStep)
    have hTasks := hGives.tasks
    have hChars := hGives.chars
    have hMem := hBalanced.asks_mem hAsks
    have hNodup := hBalanced.asks_nodup hAsks
    rw [hTasks] at hMem hNodup
    constructor
    · exact hGives.sound
    · simp only [IOHistory.asked, IOHistory.given, List.flatMap_append, List.flatMap_singleton,
        List.map_append]
      exact balance_concat hBalanced.asked hTasks
    · simp only [IOHistory.received, IOHistory.given, List.flatMap_append, List.flatMap_singleton,
        List.map_append]
      exact balance_concat hBalanced.received hChars
    · exact (List.nodup_append.mp hNodup).2.1
    · intro t hWaits
      exact hMem t (List.mem_append_right _ hWaits)

/-- Every task that asks gets the character whose turn it is; nobody waits beside a character. -/
theorem input_stream (hTids : ∀ tid ∈ tasks, tid < 128) (hFew : tasks.card ≤ 127)
    (hRun : (inMachine server taskb charb).Run (AsksIn server tasks) h s) :
    h.given = h.asked.zip h.received ∧ h.asked = h.given.map Prod.fst ++ s.waiting ∧
      h.received = h.given.map Prod.snd ++ s.charBuffer.contents ∧
      (cbufferIsEmpty s.taskBuffer ∨ cbufferIsEmpty s.charBuffer) ∧
      (∀ tid, AsksIn server tasks h s (tid, .getChar) →
        (cbufferPush s.taskBuffer (BitVec.ofNat 8 tid)).2 = 0) ∧
      ∀ i, AsksIn server tasks h s i →
        ∃ s' out, (inMachine server taskb charb).step s i s' out := by
  have hBalanced := in_run_balanced hTids hFew hRun
  refine ⟨hBalanced.given_eq, hBalanced.asked, hBalanced.received, ?_,
    fun tid hAsks => hBalanced.room hFew hAsks, fun i hAsks => ?_⟩
  · rw [hBalanced.sound.noTask_iff, hBalanced.sound.chars.isEmpty_iff]
    exact hBalanced.sound.one_empty
  · obtain ⟨r, hServe, -⟩ := hBalanced.serve hTids hFew hAsks
    exact ⟨r.1, r.2, hServe⟩

/-- Tasks 7 and 9 ask in turn; the first waits, the second finds a character in the buffer. -/
theorem input_stream_two : ∃ h : IOHistory,
    h.asked = [7, 9] ∧ h.received = [104, 105] ∧ h.given = h.asked.zip h.received := by
  have hStart := @Machine.Run.start _ _ _ (inMachine .monitor (fun _ => 0) fun _ => 0)
    (AsksIn .monitor {7, 9})
  have hAsked := hStart.next (i := (7, IOReq.getChar)) (o := _) ⟨by decide, rfl⟩ rfl
  have hGiven := hAsked.next (i := (5, IOReq.notification 104)) (o := _) (fun _ => rfl) rfl
  have hKept := hGiven.next (i := (5, IOReq.notification 105)) (o := _) (fun _ => rfl) rfl
  have hRun := hKept.next (i := (9, IOReq.getChar)) (o := _) ⟨by decide, rfl⟩ rfl
  obtain ⟨hOrder, -⟩ := input_stream (by decide) (by decide) hRun
  exact ⟨_, rfl, rfl, hOrder⟩

end TrainKernel.User
