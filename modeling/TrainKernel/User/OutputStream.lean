import TrainKernel.User.CharServers

/-!
# What goes out on a line

A character goes out at once if the notifier waits for one, and through the buffer otherwise. The
notifier waits only while the buffer is empty.
-/

namespace TrainKernel.User

open Library.Runs

/-- The tasks that run a server for the characters that go out. -/
inductive OutTask where
  | monitor
  | train
deriving DecidableEq

def OutTask.bufferSize : OutTask → Nat
  | .monitor => monitorBufferSize
  | .train => trainBufferSize

def OutTask.serve : OutTask → Nat → OutServer → Nat → IOReq → Option (OutServer × List IOOutput)
  | .monitor => monitorOutServer
  | .train => trainOutServer

/-- The characters that a request asks to have sent. -/
def IOReq.payload : IOReq → List Byte
  | .putChar data => [charOfData data]
  | .putStr str => str.bytes
  | .putRawStr s => s.bytes
  | _ => []

/-- What is written to the data register. -/
def IOOutput.written (register : BitVec 32) : IOOutput → List Byte
  | .write addr ch => if addr = register then [ch] else []
  | _ => []

variable {register data : BitVec 32} {notifierTid tid size : Nat} {s s' : OutServer}
variable {out : List IOOutput} {str : List Byte}

def writtenIn (register : BitVec 32) (out : List IOOutput) : List Byte :=
  out.flatMap (IOOutput.written register)

@[simp] theorem writtenIn_nil : writtenIn register [] = [] := rfl

@[simp] theorem writtenIn_reply : writtenIn register (.reply tid :: out) = writtenIn register out :=
  rfl

@[simp] theorem writtenIn_write (ch : Byte) :
    writtenIn register (.write register ch :: out) = ch :: writtenIn register out := by
  simp [writtenIn, IOOutput.written]

@[simp] theorem writtenIn_append (out out' : List IOOutput) :
    writtenIn register (out ++ out') = writtenIn register out ++ writtenIn register out' :=
  List.flatMap_append

/-- The notifier waits at the data register, or not at all; if it waits, nothing is buffered. -/
structure OutServer.Sound (register : BitVec 32) (size : Nat) (s : OutServer) : Prop where
  sized : s.charBuffer.Sized size
  waits : s.sendAddr = 0 ∨ s.sendAddr = register ∧ s.charBuffer.contents = []

/-- From one state to another, with the characters taken in and what is put out on the way. -/
structure Emits (register : BitVec 32) (notifierTid size : Nat) (s : OutServer) (str : List Byte)
    (r : OutServer × List IOOutput) : Prop where
  sound : r.1.Sound register size
  conserves : s.charBuffer.contents ++ str = writtenIn register r.2 ++ r.1.charBuffer.contents
  released : r.2.count (.reply notifierTid) = (writtenIn register r.2).length

theorem notifyOut_emits (h : s.Sound register size) :
    Emits register notifierTid size s [] (notifyOut s notifierTid register) := by
  rw [notifyOut]
  split_ifs with hEmpty
  · rw [h.sized.isEmpty_iff] at hEmpty
    exact ⟨⟨h.sized, Or.inr ⟨rfl, hEmpty⟩⟩, by simp, rfl⟩
  · rw [h.sized.isEmpty_iff] at hEmpty
    obtain ⟨hSized, hContents⟩ := h.sized.pop hEmpty
    have hFree : s.sendAddr = 0 := h.waits.resolve_right fun hWaits => hEmpty hWaits.2
    exact ⟨⟨hSized, Or.inl hFree⟩, by simpa using hContents, by simp⟩

theorem putCharacter_emits {ch : Byte} (h : s.Sound register size)
    (hRoom : s.sendAddr = 0 → s.charBuffer.Takes [ch]) :
    Emits register notifierTid size s [ch] (putCharacter notifierTid s ch) := by
  rw [putCharacter]
  split_ifs with hWaits
  · obtain ⟨hRegister, hEmpty⟩ := h.waits.resolve_left hWaits
    rw [hRegister]
    exact ⟨⟨h.sized, Or.inl rfl⟩, by simp [hEmpty], by simp⟩
  · have hFree := not_not.mp hWaits
    have hKept := (hRoom hFree).1
    exact ⟨⟨h.sized.push ch, Or.inl hFree⟩, (h.sized.contents_push hKept).symm, rfl⟩

theorem sendFirst_emits (h : s.Sound register size) {charBuffer : CBuffer}
    (hSized : charBuffer.Sized size)
    (hContents : charBuffer.contents = s.charBuffer.contents ++ str) :
    Emits register notifierTid size s str
      (sendFirst notifierTid { s with charBuffer := charBuffer }) := by
  rw [sendFirst]
  dsimp only
  split_ifs with hSend
  · obtain ⟨hSome, hWaits⟩ := hSend
    rw [hSized.isEmpty_iff] at hSome
    obtain ⟨hRegister, -⟩ := h.waits.resolve_left hWaits
    obtain ⟨hSized', hPop⟩ := hSized.pop hSome
    rw [hRegister]
    exact ⟨⟨hSized', Or.inl rfl⟩, by simp [← hContents, hPop], by simp⟩
  · refine ⟨⟨hSized, ?_⟩, hContents.symm, rfl⟩
    rw [hSized.isEmpty_iff, not_and_or, not_not, not_not] at hSend
    rcases hSend with hEmpty | hFree
    · rw [hContents, List.append_eq_nil_iff] at hEmpty
      exact h.waits.imp_right fun hWaits => ⟨hWaits.1, by rw [hContents, hEmpty.1, hEmpty.2]; rfl⟩
    · exact Or.inl hFree

theorem putString_emits {str : CString} (h : s.Sound register size)
    (hTakes : s.charBuffer.Takes str.bytes) :
    Emits register notifierTid size s str.bytes (putString notifierTid s str) := by
  obtain ⟨hSized, hContents⟩ := h.sized.pushLoop hTakes 0
  exact sendFirst_emits h hSized hContents

theorem putRawString_emits {str : StringBuf} (h : s.Sound register size)
    (hTakes : s.charBuffer.Takes str.bytes) :
    Emits register notifierTid size s str.bytes (putRawString notifierTid s str) := by
  obtain ⟨hSized, hContents⟩ := h.sized.pushLoop hTakes 0
  exact sendFirst_emits h hSized hContents

theorem Emits.reply_first (h : Emits register notifierTid size s str (s', out))
    (hTid : tid ≠ notifierTid) : Emits register notifierTid size s str (s', .reply tid :: out) := by
  refine ⟨h.sound, h.conserves, ?_⟩
  rw [List.count_cons_of_ne (by simpa using hTid)]
  exact h.released

theorem Emits.reply_last (h : Emits register notifierTid size s str (s', out))
    (hTid : tid ≠ notifierTid) :
    Emits register notifierTid size s str (s', out ++ [.reply tid]) := by
  refine ⟨h.sound, by simpa using h.conserves, ?_⟩
  have hNone : [IOOutput.reply tid].count (.reply notifierTid) = 0 :=
    List.count_eq_zero.mpr (by simpa using Ne.symm hTid)
  rw [List.count_append, hNone]
  simpa using h.released

def outMachine (server : OutTask) (notifierTid : Nat) (charb : Nat → Byte) :
    Machine OutServer (Nat × IOReq) (List IOOutput) where
  start := initOutServer charb server.bufferSize
  step s i s' out := server.serve notifierTid s i.1 i.2 = some (s', out)

/-- The notifier tells of the data register; the other tasks have characters sent, and the buffer
does not overflow. -/
def SendsOut (server : OutTask) (notifierTid : Nat) (register : BitVec 32) (_ : IOHistory)
    (s : OutServer) : Nat × IOReq → Prop
  | (tid, .notification data) => tid = notifierTid ∧ data = register
  | (tid, .putChar data) =>
    tid ≠ notifierTid ∧ (s.sendAddr = 0 → s.charBuffer.Takes [charOfData data])
  | (tid, .putStr str) => tid ≠ notifierTid ∧ s.charBuffer.Takes str.bytes
  | (tid, .putRawStr str) =>
    server = .train ∧ tid ≠ notifierTid ∧ s.charBuffer.Takes str.bytes
  | _ => False

def IOHistory.payloads (h : IOHistory) : List Byte := h.flatMap (·.1.2.payload)

def IOHistory.written (h : IOHistory) (register : BitVec 32) : List Byte :=
  h.flatMap fun round => writtenIn register round.2

def IOHistory.replies (h : IOHistory) (tid : Nat) : Nat :=
  (h.flatMap (·.2)).count (.reply tid)

variable {server : OutTask} {charb : Nat → Byte} {h : IOHistory} {i : Nat × IOReq}

theorem serve_emits (hSound : s.Sound register size)
    (hSends : SendsOut server notifierTid register h s i) :
    ∃ r, server.serve notifierTid s i.1 i.2 = some r ∧
      Emits register notifierTid size s i.2.payload r := by
  obtain ⟨tid, req⟩ := i
  cases req with
  | notification data =>
    obtain ⟨rfl, rfl⟩ := hSends
    cases server
    · exact ⟨_, rfl, notifyOut_emits hSound⟩
    · exact ⟨_, rfl, notifyOut_emits hSound⟩
  | putChar data =>
    have hEmits : Emits register notifierTid size s [charOfData data]
      (putCharacter notifierTid s (charOfData data)) := putCharacter_emits hSound hSends.2
    cases server
    · exact ⟨_, rfl, hEmits.reply_last hSends.1⟩
    · exact ⟨_, rfl, hEmits.reply_first hSends.1⟩
  | putStr str =>
    have hEmits : Emits register notifierTid size s str.bytes (putString notifierTid s str) :=
      putString_emits hSound hSends.2
    cases server
    · exact ⟨_, rfl, hEmits.reply_first hSends.1⟩
    · exact ⟨_, rfl, hEmits.reply_first hSends.1⟩
  | putRawStr str =>
    obtain ⟨rfl, hTid, hTakes⟩ := hSends
    exact ⟨_, rfl, (putRawString_emits hSound hTakes).reply_first hTid⟩
  | getChar => exact hSends.elim
  | echo => exact hSends.elim

theorem out_run_sound
    (hRun : (outMachine server notifierTid charb).Run (SendsOut server notifierTid register) h s) :
    s.Sound register server.bufferSize ∧ h.payloads = h.written register ++ s.charBuffer.contents ∧
      h.replies notifierTid = (h.written register).length := by
  refine hRun.invariant (fun (h : IOHistory) s => s.Sound register server.bufferSize ∧
    h.payloads = h.written register ++ s.charBuffer.contents ∧
      h.replies notifierTid = (h.written register).length) ?_ ?_
  · have hSize : 0 < server.bufferSize := by cases server <;> decide
    refine ⟨⟨.init charb hSize, Or.inl rfl⟩, ?_, rfl⟩
    exact (CBuffer.Sized.contents_init charb hSize).symm
  · rintro h s ⟨tid, req⟩ s' out ⟨hSound, hConserves, hReleased⟩ hSends hStep
    obtain ⟨r, hServe, hEmits⟩ := serve_emits hSound hSends
    obtain rfl : r = (s', out) := Option.some.inj (hServe.symm.trans hStep)
    have hReplies := hEmits.released
    simp only [IOHistory.payloads, IOHistory.written, IOHistory.replies, List.flatMap_append,
      List.flatMap_singleton, List.count_append, List.length_append] at hConserves hReleased ⊢
    exact ⟨hEmits.sound, balance_concat hConserves hEmits.conserves, by rw [hReleased, hReplies]⟩

/-- The characters go out in the order in which they were asked for, and the notifier is let go
once for each. -/
theorem output_stream
    (hRun : (outMachine server notifierTid charb).Run (SendsOut server notifierTid register) h s) :
    h.written register <+: h.payloads ∧ h.payloads = h.written register ++ s.charBuffer.contents ∧
      h.replies notifierTid = (h.written register).length ∧
      (s.sendAddr ≠ 0 → cbufferIsEmpty s.charBuffer) ∧
      ∀ i, SendsOut server notifierTid register h s i →
        ∃ s' out, (outMachine server notifierTid charb).step s i s' out := by
  obtain ⟨hSound, hConserves, hReleased⟩ := out_run_sound hRun
  refine ⟨⟨_, hConserves.symm⟩, hConserves, hReleased, fun hWaits => ?_, fun i hSends => ?_⟩
  · rw [hSound.sized.isEmpty_iff]
    exact (hSound.waits.resolve_left hWaits).2
  · obtain ⟨r, hServe, -⟩ := serve_emits hSound hSends
    exact ⟨r.1, r.2, hServe⟩

/-- The notifier waits when the string of two characters comes; the second one goes out when the
notifier is back. -/
theorem output_stream_string : ∃ h : IOHistory,
    h.written 0x808c0000 = [104, 105] ∧ h.written 0x808c0000 <+: h.payloads ∧
      h.replies 5 = (h.written 0x808c0000).length := by
  have hStart := @Machine.Run.start _ _ _ (outMachine .train 5 fun _ => 0)
    (SendsOut .train 5 0x808c0000)
  have hFirst := hStart.next (i := (5, IOReq.notification 0x808c0000)) (o := []) ⟨rfl, rfl⟩ rfl
  have hString := hFirst.next (i := (9, IOReq.putStr ⟨[104, 105], by decide⟩)) (o := _)
    ⟨by decide, rfl, rfl, trivial⟩ rfl
  have hRun := hString.next (i := (5, IOReq.notification 0x808c0000)) (o := _) ⟨rfl, rfl⟩ rfl
  obtain ⟨hPrefix, -, hReleased, -⟩ := output_stream hRun
  exact ⟨_, rfl, hPrefix, hReleased⟩

end TrainKernel.User
