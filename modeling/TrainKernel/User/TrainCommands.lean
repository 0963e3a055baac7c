import TrainKernel.Library.Outcome
import TrainKernel.Library.PrefixCode
import TrainKernel.User.FormatItems
import TrainKernel.User.OutputStream
import TrainKernel.User.TurnoutMap

/-!
# Train commands

The commands for the train controller, two or three characters each, and the requests by which the
other tasks have them sent. No command is the beginning of another one.
-/

namespace TrainKernel.User

open Library.Outcome Library.PrefixCode Library.Runs

inductive Channel where
  | com1
  | com2
deriving DecidableEq

/-- What stands on the stack where `printf` and `sformat` have their variables. -/
structure Scratch where
  s : StringBuf
  bf : Nat → Byte

/-- The text in the buffer, up to its first NUL. -/
def StringBuf.cstring (s : StringBuf) : CString where
  bytes := s.bytes.takeWhile (· ≠ 0)
  zero_notMem h := by simpa using List.mem_takeWhile_imp h

namespace Client

def putc (c : Byte) : IOReq := .putChar (c.setWidth 32)

def putStr (str : CString) : IOReq := .putStr str

def putRawString (s : StringBuf) : IOReq := .putRawStr s

def putString (channel : Channel) (s : StringBuf) : IOReq :=
  let s := { s with buf := Function.update s.buf s.len 0 }
  match channel with
  | .com2 => putStr s.cstring
  | .com1 => putRawString s

def printf (m : Scratch) (channel : Channel) (fmt : CString) (args : List VaArg) :
    Except FormatFault IOReq := do
  let s ← sformat (sinit m.s) fmt args m.bf
  return putString channel s

abbrev TrainNumber := { n : Int // 1 ≤ n ∧ n ≤ 80 }

abbrev TrainSpeed := { v : Int // 0 ≤ v ∧ v ≤ 14 }

abbrev TurnoutNumber := { n : Int // IsTurnout n }

def sensorResetCode : Int := 192
def sensorQueryCode : Int := 128 + 5

/-- `(char)i`. -/
def charOfInt (i : Int) : Byte := BitVec.ofInt 8 i

/-- An argument of type `int`. -/
def intArg (i : Int) : VaArg := .word (BitVec.ofInt 32 i)

/-- An argument of type `char`. -/
def charArg (c : Byte) : VaArg := .word (c.setWidth 32)

/-- `"%c%c"` -/
def twoChars : CString := ⟨[37, 99, 37, 99], by decide⟩

/-- `"%c%c%c"` -/
def threeChars : CString := ⟨[37, 99, 37, 99, 37, 99], by decide⟩

def trainSetSpeed (m : Scratch) (trainNumber : TrainNumber) (trainSpeed : TrainSpeed) :
    Except FormatFault IOReq :=
  printf m .com1 twoChars [charArg (charOfInt trainSpeed), charArg (charOfInt trainNumber)]

def trainSetReverse (m : Scratch) (trainNumber : TrainNumber) : Except FormatFault IOReq :=
  printf m .com1 twoChars [intArg controlReverse, charArg (charOfInt trainNumber)]

def trainSetSwitch (m : Scratch) (switchNumber : TurnoutNumber) (curved : Bool) :
    Except FormatFault IOReq :=
  let operation := charOfInt (if curved then controlCurved else controlStraight)
  printf m .com1 threeChars [charArg operation, intArg switchNumber, intArg controlSolenoidOff]

end Client

open Client

/-- What the train controller understands. -/
inductive TrainCommand where
  | setSpeed (trainNumber : TrainNumber) (trainSpeed : TrainSpeed)
  | setReverse (trainNumber : TrainNumber)
  | setSwitch (switchNumber : TurnoutNumber) (curved : Bool)
  | sensorReset
  | sensorQuery

namespace TrainCommand

def request (m : Scratch) : TrainCommand → Except FormatFault IOReq
  | setSpeed trainNumber trainSpeed => trainSetSpeed m trainNumber trainSpeed
  | setReverse trainNumber => trainSetReverse m trainNumber
  | setSwitch switchNumber curved => trainSetSwitch m switchNumber curved
  | sensorReset => .ok (putc (charOfInt sensorResetCode))
  | sensorQuery => .ok (putc (charOfInt sensorQueryCode))

def message : TrainCommand → List Int
  | setSpeed trainNumber trainSpeed => [trainSpeed, trainNumber]
  | setReverse trainNumber => [controlReverse, trainNumber]
  | setSwitch switchNumber curved =>
    [if curved then controlCurved else controlStraight, switchNumber, controlSolenoidOff]
  | sensorReset => [sensorResetCode]
  | sensorQuery => [sensorQueryCode]

/-- The characters on the line. -/
def bytes (c : TrainCommand) : List Byte := c.message.map charOfInt

variable {a b : TrainCommand} {m : Scratch} {req : IOReq}

def InCharRange (i : Int) : Prop := 0 ≤ i ∧ i < 256

theorem charOfInt_inj {i j : Int} (hi : InCharRange i) (hj : InCharRange j) :
    charOfInt i = charOfInt j ↔ i = j := by
  refine ⟨fun h => ?_, congrArg _⟩
  have hNat := congrArg BitVec.toNat h
  rw [charOfInt, charOfInt, BitVec.toNat_ofInt, BitVec.toNat_ofInt] at hNat
  obtain ⟨hi, hi'⟩ := hi
  obtain ⟨hj, hj'⟩ := hj
  omega

theorem message_inCharRange (a : TrainCommand) : ∀ i ∈ a.message, InCharRange i := by
  cases a with
  | setSpeed trainNumber trainSpeed =>
    have hNumber := trainNumber.2
    have hSpeed := trainSpeed.2
    simp only [message, List.forall_mem_cons, InCharRange]
    exact ⟨by omega, by omega, List.forall_mem_nil _⟩
  | setReverse trainNumber =>
    have hNumber := trainNumber.2
    simp only [message, List.forall_mem_cons, InCharRange, controlReverse]
    exact ⟨by omega, by omega, List.forall_mem_nil _⟩
  | setSwitch switchNumber curved =>
    have hNumber := switchNumber.2
    simp only [IsTurnout] at hNumber
    simp only [message, List.forall_mem_cons, InCharRange, controlCurved, controlStraight,
      controlSolenoidOff]
    exact ⟨by split_ifs <;> omega, by omega, by omega, List.forall_mem_nil _⟩
  | sensorReset => simp [message, InCharRange, sensorResetCode]
  | sensorQuery => simp [message, InCharRange, sensorQueryCode]

theorem map_prefix_map {l l' : List Int} (hl : ∀ i ∈ l, InCharRange i)
    (hl' : ∀ i ∈ l', InCharRange i) (h : l.map charOfInt <+: l'.map charOfInt) : l <+: l' := by
  induction l generalizing l' with
  | nil => exact List.nil_prefix
  | cons i l ih =>
    cases l' with
    | nil => simp at h
    | cons j l' =>
      rw [List.forall_mem_cons] at hl hl'
      rw [List.map_cons, List.map_cons, List.cons_prefix_cons] at h
      rw [List.cons_prefix_cons]
      exact ⟨(charOfInt_inj hl.1 hl'.1).mp h.1, ih hl.2 hl'.2 h.2⟩

/-- The first number tells the commands apart. -/
theorem eq_of_message_prefix (h : a.message <+: b.message) : a = b := by
  cases a <;> cases b <;> simp only [message, List.cons_prefix_cons] at h <;>
    grind [controlReverse, controlCurved, controlStraight, sensorResetCode, sensorQueryCode]

theorem isPrefixCode_bytes : IsPrefixCode bytes where
  ne_nil a := by cases a <;> simp [bytes, message]
  eq_of_prefix a b h :=
    eq_of_message_prefix (map_prefix_map a.message_inCharRange b.message_inCharRange h)

variable {fmt : CString} {args : List VaArg} {text : List Byte}

/-- The monitor gets the text up to its first NUL, the train controller all of it. -/
theorem printf_payload (m : Scratch) (channel : Channel) (items : List Item)
    (hFormat : fmt.bytes = formatText items) (hItems : ∀ i ∈ items, i.WellFormed)
    (hRender : render items args = some text) (hRoom : text.length ≤ strMaxLen) :
    ∃ req, printf m channel fmt args = .ok req ∧
      req.payload = match channel with
        | .com1 => text
        | .com2 => text.takeWhile (· ≠ 0) := by
  have hLoop := formatLoop_items sputChar m.bf (sinit m.s) hItems hRender (Nat.lt_succ_self _)
  obtain ⟨s, hPut, hHolds⟩ :=
    (putAll_sputChar (StringBuf.Holds.sinit m.s) (Nat.zero_le _)).1 (by simpa using hRoom)
  have hBytes : StringBuf.bytes ⟨s.len, Function.update s.buf s.len 0⟩ = text := by
    rw [← hHolds.terminated, Function.update_eq_self]
    exact hHolds.bytes_eq
  refine ⟨Client.putString channel s, ?_, ?_⟩
  · rw [printf, sformat, format, hFormat, hLoop, hPut]
    rfl
  · cases channel with
    | com1 => exact hBytes
    | com2 => exact congrArg (List.takeWhile _) hBytes

@[simp] theorem setWidth_charArg (c : Byte) : (c.setWidth 32).setWidth 8 = c := by
  rw [BitVec.setWidth_setWidth_of_le _ (by decide), BitVec.setWidth_eq]

@[simp] theorem setWidth_intArg (i : Int) : (BitVec.ofInt 32 i).setWidth 8 = charOfInt i := by
  apply BitVec.eq_of_toNat_eq
  rw [charOfInt, BitVec.toNat_setWidth, BitVec.toNat_ofInt, BitVec.toNat_ofInt]
  omega

/-- Each function has the characters of its command sent. -/
theorem request_payload (m : Scratch) (c : TrainCommand) :
    ∃ req, c.request m = .ok req ∧ req.payload = c.bytes := by
  have hTwo (a b : BitVec 32) : ∃ req, printf m .com1 twoChars [.word a, .word b] = .ok req ∧
      req.payload = [a.setWidth 8, b.setWidth 8] :=
    printf_payload m .com1 [.conv .plain .char, .conv .plain .char] rfl
      (by simp [Item.WellFormed, Pad.Fits]) rfl (by simp [strMaxLen])
  have hThree (a b c : BitVec 32) :
      ∃ req, printf m .com1 threeChars [.word a, .word b, .word c] = .ok req ∧
        req.payload = [a.setWidth 8, b.setWidth 8, c.setWidth 8] :=
    printf_payload m .com1 [.conv .plain .char, .conv .plain .char, .conv .plain .char] rfl
      (by simp [Item.WellFormed, Pad.Fits]) rfl (by simp [strMaxLen])
  cases c with
  | setSpeed trainNumber trainSpeed =>
    obtain ⟨req, hRequest, hPayload⟩ :=
      hTwo ((charOfInt trainSpeed).setWidth 32) ((charOfInt trainNumber).setWidth 32)
    rw [setWidth_charArg, setWidth_charArg] at hPayload
    exact ⟨req, hRequest, hPayload⟩
  | setReverse trainNumber =>
    obtain ⟨req, hRequest, hPayload⟩ :=
      hTwo (BitVec.ofInt 32 controlReverse) ((charOfInt trainNumber).setWidth 32)
    rw [setWidth_intArg, setWidth_charArg] at hPayload
    exact ⟨req, hRequest, hPayload⟩
  | setSwitch switchNumber curved =>
    obtain ⟨req, hRequest, hPayload⟩ :=
      hThree ((charOfInt (if curved then controlCurved else controlStraight)).setWidth 32)
        (BitVec.ofInt 32 switchNumber) (BitVec.ofInt 32 controlSolenoidOff)
    rw [setWidth_charArg, setWidth_intArg, setWidth_intArg] at hPayload
    exact ⟨req, hRequest, hPayload⟩
  | sensorReset => exact ⟨_, rfl, rfl⟩
  | sensorQuery => exact ⟨_, rfl, rfl⟩

end TrainCommand

instance : DecidablePred IsTurnout := fun n =>
  inferInstanceAs (Decidable ((1 ≤ n ∧ n ≤ 18) ∨ (153 ≤ n ∧ n ≤ 156)))

theorem isTurnout_five : IsTurnout 5 := Or.inl (by decide)

def ParserCall.commands : ParserCall → List TrainCommand
  | .trainSetSpeed n v =>
    if h : (1 ≤ n ∧ n ≤ 80) ∧ 0 ≤ v ∧ v ≤ 14 then [.setSpeed ⟨n, h.1⟩ ⟨v, h.2⟩] else []
  | .trainSetReverse n => if h : 1 ≤ n ∧ n ≤ 80 then [.setReverse ⟨n, h⟩] else []
  | .setTurnout n direction => if h : IsTurnout n then [.setSwitch ⟨n, h⟩ (direction = 'c')] else []
  | .loadTrackStructure track =>
    if track = 'a' then [.setSwitch ⟨5, isTurnout_five⟩ true] else []
  | _ => []

namespace Controls

variable {controls controls' : Controls} {tid : { tid : Int // 0 < tid }} {call : ParserCall}
variable {calls : List ParserCall} {n : Int} {direction : Char}

theorem of_ensure {α : Type} {c : Prop} [Decidable c] {f : Unit → Except ControlFault α} {a : α}
    (h : (ensure c >>= f) = .ok a) : c ∧ f () = .ok a := by
  rw [ensure] at h
  split_ifs at h with hc
  · exact ⟨hc, h⟩
  · cases h

theorem setTurnout_sends (h : controls.setTurnout n direction = .ok controls') :
    controls'.sent = controls.sent ++
      (ParserCall.setTurnout n direction).commands.flatMap TrainCommand.message := by
  obtain ⟨hNumber, hDirection⟩ := setTurnout_comesThrough.mp ⟨_, h⟩
  rw [isDirection, decide_eq_true_eq] at hDirection
  have hCall : TurnoutCall.Expected ⟨n, direction⟩ := ⟨hNumber, hDirection⟩
  obtain ⟨controls₁, hSet, hSent, -⟩ := setTurnout_spec hCall controls
  obtain rfl := Except.ok.inj (hSet.symm.trans h)
  rw [hSent, ParserCall.commands, dif_pos hNumber]
  simp [TrainCommand.message, TurnoutCall.command]

/-- A call that comes through sends its commands and nothing else. -/
theorem perform_sends (h : controls.perform tid call = .ok controls') :
    controls'.sent = controls.sent ++ call.commands.flatMap TrainCommand.message := by
  have hSame (hSent : controls'.sent = controls.sent) :
      controls'.sent = controls.sent ++ [].flatMap TrainCommand.message := by
    rw [List.flatMap_nil, List.append_nil, hSent]
  cases call with
  | setTurnout n direction => exact setTurnout_sends h
  | trainSetSpeed n v =>
    obtain ⟨hNumber, h⟩ := of_ensure h
    obtain ⟨hSpeed, h⟩ := of_ensure h
    dsimp only at h
    split_ifs at h with hIndex
    rw [← Except.ok.inj h, ParserCall.commands, dif_pos ⟨hNumber, hSpeed⟩]
    rfl
  | trainSetReverse n =>
    obtain ⟨hNumber, h⟩ := of_ensure h
    rw [← Except.ok.inj h, ParserCall.commands, dif_pos hNumber]
    rfl
  | loadTrackStructure track =>
    rw [perform, loadTrackStructure] at h
    rw [ParserCall.commands]
    split_ifs at h ⊢ with hTrack
    · rw [setTurnout_sends h, ParserCall.commands, dif_pos isTurnout_five]
      rfl
    · exact hSame (by rw [← Except.ok.inj h])
  | sensorHalt n group number =>
    obtain ⟨-, h⟩ := of_ensure h
    obtain ⟨-, h⟩ := of_ensure h
    obtain ⟨-, h⟩ := of_ensure h
    obtain ⟨haltReading, -, h⟩ := exists_of_bind_eq_ok h
    exact hSame (by rw [← Except.ok.inj h])
  | engineerCreate n index =>
    obtain ⟨-, h⟩ := of_ensure h
    obtain ⟨-, h⟩ := of_ensure h
    split at h <;> exact hSame (by rw [← Except.ok.inj h])
  | engineerSetSpeed tid speed =>
    exact hSame (by rw [← Except.ok.inj (of_ensure h).2])
  | engineerSetReverse tid =>
    exact hSame (by rw [← Except.ok.inj (of_ensure h).2])
  | engineerXMarksTheSpot tid index offset =>
    obtain ⟨-, h⟩ := of_ensure (of_ensure h).2
    obtain ⟨-, -, h⟩ := exists_of_bind_eq_ok h
    exact hSame (by rw [← Except.ok.inj h])
  | engineerGo tid index =>
    obtain ⟨-, -, h⟩ := exists_of_bind_eq_ok (of_ensure h).2
    exact hSame (by rw [← Except.ok.inj h])
  | taskDisplayAll => exact hSame (by rw [← Except.ok.inj h])
  | drawTrackLayoutGraph track => exact hSame (by rw [← Except.ok.inj h])
  | printCalibrationLoop i => exact hSame (by rw [← Except.ok.inj h])
  | delay ticks => exact hSame (by rw [← Except.ok.inj h])

theorem performAll_sends (h : controls.performAll tid calls = .ok controls') :
    controls'.sent = controls.sent ++
      (calls.flatMap ParserCall.commands).flatMap TrainCommand.message := by
  induction calls generalizing controls with
  | nil =>
    obtain rfl := Except.ok.inj h
    exact (List.append_nil _).symm
  | cons call calls ih =>
    rw [performAll] at h
    cases hCall : controls.perform tid call with
    | error fault =>
      rw [hCall] at h
      cases h
    | ok controls₁ =>
      rw [hCall] at h
      rw [ih h, perform_sends hCall, List.flatMap_cons, List.flatMap_append, List.append_assoc]

end Controls

/-- A request of another task than the notifier. -/
def IOReq.asked : IOReq → List IOReq
  | .notification _ => []
  | req => [req]

def IOHistory.requests (h : IOHistory) : List IOReq := h.flatMap (·.1.2.asked)

/-- The requests are those of the commands, in their order. -/
def IOHistory.Issues (h : IOHistory) (cs : List TrainCommand) : Prop :=
  List.Forall₂ (fun c req => ∃ m, TrainCommand.request m c = .ok req) cs h.requests

variable {h : IOHistory} {cs : List TrainCommand}

theorem IOHistory.payloads_eq (h : IOHistory) : h.payloads = h.requests.flatMap IOReq.payload := by
  have hAsked (req : IOReq) : req.asked.flatMap IOReq.payload = req.payload := by
    cases req <;> simp [IOReq.asked, IOReq.payload]
  rw [requests, List.flatMap_assoc]
  simp only [hAsked]
  rfl

theorem IOHistory.Issues.payloads_eq (hIssues : h.Issues cs) :
    h.payloads = encode TrainCommand.bytes cs := by
  rw [h.payloads_eq]
  rw [Issues] at hIssues
  generalize h.requests = reqs at hIssues
  induction hIssues with
  | nil => rfl
  | cons hRequest _ ih =>
    obtain ⟨m, hRequest⟩ := hRequest
    obtain ⟨req, hSame, hPayload⟩ := TrainCommand.request_payload m _
    obtain rfl := Except.ok.inj (hSame.symm.trans hRequest)
    rw [List.flatMap_cons, hPayload, ih, encode_cons]

/-! ## The notifier and the server -/

/-- `trainOutNotifier` puts this on the line before it waits for anything. -/
def startByte : Byte := 0x60

structure TrainLine where
  started : Bool
  server : OutServer

inductive TrainLineEvent where
  | start
  | request (tid : Nat) (req : IOReq)

abbrev TrainLineHistory := History TrainLineEvent (List IOOutput)

inductive TrainLine.Step (notifierTid : Nat) (register : BitVec 32) :
    TrainLine → TrainLineEvent → TrainLine → List IOOutput → Prop
  | start {s : TrainLine} (hNew : s.started = false) :
      Step notifierTid register s .start { s with started := true } [.write register startByte]
  | request {s : TrainLine} {tid : Nat} {req : IOReq} {server : OutServer} {out : List IOOutput}
      (hNotifier : tid = notifierTid → s.started = true)
      (hServe : trainOutServer notifierTid s.server tid req = some (server, out)) :
      Step notifierTid register s (.request tid req) { s with server } out

def trainLine (notifierTid : Nat) (register : BitVec 32) (charb : Nat → Byte) :
    Machine TrainLine TrainLineEvent (List IOOutput) where
  start := ⟨false, initOutServer charb trainBufferSize⟩
  step := TrainLine.Step notifierTid register

namespace TrainLineHistory

def outRound : TrainLineEvent × List IOOutput → IOHistory
  | (.start, _) => []
  | (.request tid req, out) => [((tid, req), out)]

def outRounds (h : TrainLineHistory) : IOHistory := h.flatMap outRound

/-- Everything that is written to the data register, by the server or by the notifier. -/
def written (h : TrainLineHistory) (register : BitVec 32) : List Byte :=
  h.flatMap fun round => writtenIn register round.2

end TrainLineHistory

/-- The server's conditions. -/
def OnTrainLine (notifierTid : Nat) (register : BitVec 32) (h : TrainLineHistory) (s : TrainLine) :
    TrainLineEvent → Prop
  | .start => True
  | .request tid req => SendsOut .train notifierTid register h.outRounds s.server (tid, req)

def TrainLine.startUp (s : TrainLine) : List Byte := if s.started then [startByte] else []

section trainLine

variable {notifierTid tid : Nat} {register : BitVec 32} {charb : Nat → Byte} {line : TrainLine}
variable {lines : TrainLineHistory} {server server' : OutServer} {req : IOReq}
variable {out : List IOOutput}

theorem trainLine_out_run (hRun : (trainLine notifierTid register charb).Run
      (OnTrainLine notifierTid register) lines line) :
    (outMachine .train notifierTid charb).Run (SendsOut .train notifierTid register)
      lines.outRounds line.server := by
  refine hRun.project TrainLine.server TrainLineHistory.outRound rfl ?_
  intro h s e s' out hAllowed hStep
  cases hStep with
  | start hNew => exact .inl ⟨rfl, rfl⟩
  | request hNotifier hServe => exact .inr ⟨_, _, rfl, hAllowed, hServe⟩

/-- Before the notifier has told the server of the register, nothing is written to it. -/
theorem trainOutServer_idle (hIdle : server.sendAddr = 0) (hAsked : req.asked = [req])
    (hServe : trainOutServer notifierTid server tid req = some (server', out)) :
    server'.sendAddr = 0 ∧ writtenIn register out = [] := by
  have hSend (charBuffer : CBuffer) : sendFirst notifierTid ⟨server.sendAddr, charBuffer⟩
      = (⟨server.sendAddr, charBuffer⟩, []) := if_neg fun h => h.2 hIdle
  cases req with
  | notification data => cases hAsked
  | putChar data =>
    rw [trainOutServer, putCharacter, if_neg (not_not.mpr hIdle)] at hServe
    obtain ⟨rfl, rfl⟩ := Prod.mk.inj (Option.some.inj hServe)
    exact ⟨hIdle, rfl⟩
  | putStr str =>
    rw [trainOutServer, putString, hSend] at hServe
    obtain ⟨rfl, rfl⟩ := Prod.mk.inj (Option.some.inj hServe)
    exact ⟨hIdle, rfl⟩
  | putRawStr str =>
    rw [trainOutServer, putRawString, hSend] at hServe
    obtain ⟨rfl, rfl⟩ := Prod.mk.inj (Option.some.inj hServe)
    exact ⟨hIdle, rfl⟩
  | getChar => cases hServe
  | echo => cases hServe

/-- The first character comes from the notifier, and the others from the server. -/
structure TrainLine.Begun (register : BitVec 32) (lines : TrainLineHistory) (line : TrainLine) :
    Prop where
  written : lines.written register = line.startUp ++ lines.outRounds.written register
  idle : line.started = false →
    line.server.sendAddr = 0 ∧ lines.outRounds.written register = []

theorem trainLine_begun (hRun : (trainLine notifierTid register charb).Run
    (OnTrainLine notifierTid register) lines line) : line.Begun register lines := by
  refine hRun.invariant (fun lines line => line.Begun register lines)
    ⟨rfl, fun _ => ⟨rfl, rfl⟩⟩ ?_
  intro (h : TrainLineHistory) s e s' out hBegun hAllowed hStep
  have hConcat (e : TrainLineEvent) (out : List IOOutput) :
      TrainLineHistory.written (h ++ [(e, out)]) register
        = h.written register ++ writtenIn register out := by
    simp [TrainLineHistory.written]
  cases hStep with
  | start hNew =>
    obtain ⟨-, hNone⟩ := hBegun.idle hNew
    have hSame : TrainLineHistory.outRounds
        (h ++ [(.start, [.write register startByte])]) = h.outRounds := by
      simp [TrainLineHistory.outRounds, TrainLineHistory.outRound]
    refine ⟨?_, fun hNever => nomatch hNever⟩
    rw [hConcat, hSame, hBegun.written, hNone, TrainLine.startUp, hNew]
    simp [TrainLine.startUp]
  | @request tid req server out hNotifier hServe =>
    have hMore : (TrainLineHistory.outRounds (h ++ [(.request tid req, out)])).written register
        = h.outRounds.written register ++ writtenIn register out := by
      simp [TrainLineHistory.outRounds, TrainLineHistory.outRound, IOHistory.written]
    refine ⟨?_, fun hNew => ?_⟩
    · rw [hConcat, hMore, hBegun.written, List.append_assoc]
      rfl
    · have hAsked : req.asked = [req] := by
        cases req with
        | notification data =>
          obtain ⟨hTid, -⟩ := hAllowed
          exact absurd (hNotifier hTid) (Bool.eq_false_iff.mp hNew)
        | _ => rfl
      obtain ⟨hIdle, hNone⟩ := hBegun.idle hNew
      obtain ⟨hStill, hSilent⟩ := trainOutServer_idle hIdle hAsked hServe
      exact ⟨hStill, by rw [hMore, hNone, hSilent, List.append_nil]⟩

/-- After the start byte the line carries the commands in the order of the requests, each of them
whole before the next one begins, and what has been sent so far can be read in one way only. -/
theorem commands_reach_line (hRun : (trainLine notifierTid register charb).Run
      (OnTrainLine notifierTid register) lines line)
    (hIssues : lines.outRounds.Issues cs) :
    ∃ done rest part, cs = done ++ rest ∧
      lines.written register = line.startUp ++ (encode TrainCommand.bytes done ++ part) ∧
      part ++ line.server.charBuffer.contents = encode TrainCommand.bytes rest ∧
      Unfinished TrainCommand.bytes part ∧
      (line.server.charBuffer.contents = [] → rest = []) ∧
      (line.started = false → done = [] ∧ part = []) ∧
      ∀ done' part',
        lines.written register = line.startUp ++ (encode TrainCommand.bytes done' ++ part') →
        Unfinished TrainCommand.bytes part' → done' = done ∧ part' = part := by
  obtain ⟨-, hConserves, -⟩ := out_run_sound (trainLine_out_run hRun)
  obtain ⟨hBegins, hIdle⟩ := trainLine_begun hRun
  rw [hIssues.payloads_eq] at hConserves
  obtain ⟨done, rest, part, rfl, hWritten, -, hPart⟩ :=
    exists_received (w := lines.outRounds.written register) ⟨_, hConserves.symm⟩
  have hBuffered : part ++ line.server.charBuffer.contents = encode TrainCommand.bytes rest := by
    rw [hWritten, encode, List.flatMap_append, List.append_assoc] at hConserves
    exact (List.append_cancel_left hConserves).symm
  have hNone : Unfinished TrainCommand.bytes [] := .inl rfl
  have hUnique (done' : List TrainCommand) (part' : List Byte)
      (hRead : lines.outRounds.written register = encode TrainCommand.bytes done' ++ part')
      (hPart' : Unfinished TrainCommand.bytes part') : done' = done ∧ part' = part :=
    TrainCommand.isPrefixCode_bytes.read_unique (hRead.symm.trans hWritten) hPart' hPart
  refine ⟨done, rest, part, rfl, hWritten ▸ hBegins, hBuffered, hPart, fun hEmpty => ?_,
    fun hNew => ?_, fun done' part' hRead hPart' => ?_⟩
  · have hRead : encode TrainCommand.bytes rest ++ [] = encode TrainCommand.bytes [] ++ part := by
      rw [List.append_nil, ← hBuffered, hEmpty, List.append_nil]
      rfl
    exact (TrainCommand.isPrefixCode_bytes.read_unique hRead hNone hPart).1
  · obtain ⟨hDone, hRest⟩ := hUnique [] [] (hIdle hNew).2 hNone
    exact ⟨hDone.symm, hRest.symm⟩
  · rw [hBegins] at hRead
    exact hUnique done' part' (List.append_cancel_left hRead) hPart'

end trainLine

def startSpeed : TrainCommand := .setSpeed ⟨24, by decide⟩ ⟨10, by decide⟩

def startRequest : IOReq :=
  Client.putString .com1 ((sputAll [10, 24] (sinit emptyString)).toOption.getD emptyString)

/-- The query goes out at once, and then the first character of the speed. -/
theorem commands_reach_line_started : ∃ (lines : TrainLineHistory) (line : TrainLine),
    lines.written 0x808c0000 = [0x60, 133, 10] ∧
    ∃ done rest part, [.sensorQuery, startSpeed] = done ++ rest ∧
      lines.written 0x808c0000 = line.startUp ++ (encode TrainCommand.bytes done ++ part) := by
  have hNew := @Machine.Run.start _ _ _ (trainLine 5 0x808c0000 fun _ => 0)
    (OnTrainLine 5 0x808c0000)
  have hStart := hNew.next (i := TrainLineEvent.start) (o := _) trivial
    (@TrainLine.Step.start 5 0x808c0000 _ rfl)
  have hFirst := hStart.next (i := TrainLineEvent.request 5 (.notification 0x808c0000)) (o := [])
    ⟨rfl, rfl⟩ (@TrainLine.Step.request 5 0x808c0000 _ 5 _ _ _ (fun _ => rfl) rfl)
  have hQuery := hFirst.next (i := TrainLineEvent.request 9 (putc 133)) (o := _)
    ⟨by decide, nofun⟩ (@TrainLine.Step.request 5 0x808c0000 _ 9 _ _ _ nofun rfl)
  have hSpeed := hQuery.next (i := TrainLineEvent.request 9 startRequest) (o := _)
    ⟨rfl, by decide, rfl, rfl, trivial⟩
    (@TrainLine.Step.request 5 0x808c0000 _ 9 _ _ _ nofun rfl)
  have hRun := hSpeed.next (i := TrainLineEvent.request 5 (.notification 0x808c0000)) (o := _)
    ⟨rfl, rfl⟩ (@TrainLine.Step.request 5 0x808c0000 _ 5 _ _ _ (fun _ => rfl) rfl)
  have hIssues : List.Forall₂ (fun c req => ∃ m, TrainCommand.request m c = .ok req)
      [.sensorQuery, startSpeed] [putc 133, startRequest] :=
    .cons ⟨⟨emptyString, fun _ => 0⟩, rfl⟩ (.cons ⟨⟨emptyString, fun _ => 0⟩, rfl⟩ .nil)
  obtain ⟨done, rest, part, hAll, hWritten, -⟩ := commands_reach_line hRun hIssues
  exact ⟨_, _, rfl, done, rest, part, hAll, hWritten⟩

end TrainKernel.User
