import TrainKernel.Library.Runs
import TrainKernel.User.CharBuffer

/-!
# The servers of the serial lines

Each of the two lines has a server for the characters that come in and one for those that go out.
A notifier tells a server that a character has come, or that the next one may be written; the
other tasks ask for characters or have them sent.
-/

namespace TrainKernel.User

/-- A request for a server of characters. A string is what its address leads to. -/
inductive IOReq where
  | notification (data : BitVec 32)
  | putChar (data : BitVec 32)
  | putStr (str : CString)
  | getChar
  | echo
  | putRawStr (s : StringBuf)

inductive IOOutput where
  | reply (tid : Nat)
  | replyChar (tid : Nat) (c : Byte)
  | replyData (tid : Nat) (data : BitVec 32)
  | write (addr : BitVec 32) (ch : Byte)
deriving DecidableEq

/-- Each message with its sender and with what comes out for it. -/
abbrev IOHistory := Library.Runs.History (Nat × IOReq) (List IOOutput)

def monitorBufferSize : Nat := 2048
def trainBufferSize : Nat := 512

/-- `(char)req.data`. -/
def charOfData (data : BitVec 32) : Byte := data.setWidth 8

/-- The tasks that wait are kept as characters. -/
structure InServer where
  courierTid : Nat
  taskBuffer : CBuffer
  charBuffer : CBuffer

def initInServer (taskb charb : Nat → Byte) (size : Nat) : InServer :=
  ⟨0, cbufferInit taskb 128, cbufferInit charb size⟩

/-- The character goes to the task that has waited longest, or into the buffer. -/
def giveChar (s : InServer) (c : Byte) : InServer × List IOOutput :=
  if cbufferIsEmpty s.taskBuffer then
    ({ s with charBuffer := (cbufferPush s.charBuffer c).1 }, [])
  else
    let (poppedTid, taskBuffer) := cbufferPop s.taskBuffer
    ({ s with taskBuffer }, [.replyChar poppedTid.toNat c])

def takeChar (s : InServer) (tid : Nat) : InServer × List IOOutput :=
  if cbufferIsEmpty s.charBuffer then
    ({ s with taskBuffer := (cbufferPush s.taskBuffer (BitVec.ofNat 8 tid)).1 }, [])
  else
    let (ch, charBuffer) := cbufferPop s.charBuffer
    ({ s with charBuffer }, [.replyChar tid ch])

/-- A failed assertion is `none`. -/
def monitorInServer (s : InServer) (tid : Nat) : IOReq → Option (InServer × List IOOutput)
  | .notification data =>
    let echoed := if s.courierTid ≠ 0 then [IOOutput.replyData s.courierTid data] else []
    let (s, given) := giveChar { s with courierTid := 0 } (charOfData data)
    some (s, .reply tid :: echoed ++ given)
  | .getChar => some (takeChar s tid)
  | .echo => some ({ s with courierTid := tid }, [])
  | _ => none

def trainInServer (s : InServer) (tid : Nat) : IOReq → Option (InServer × List IOOutput)
  | .notification data =>
    let (s, given) := giveChar s (charOfData data)
    some (s, .reply tid :: given)
  | .getChar => some (takeChar s tid)
  | _ => none

/-- `sendAddr` is 0, or the data register while the notifier waits for a character. -/
structure OutServer where
  sendAddr : BitVec 32
  charBuffer : CBuffer

def initOutServer (charb : Nat → Byte) (size : Nat) : OutServer := ⟨0, cbufferInit charb size⟩

def notifyOut (s : OutServer) (tid : Nat) (data : BitVec 32) : OutServer × List IOOutput :=
  if cbufferIsEmpty s.charBuffer then ({ s with sendAddr := data }, [])
  else
    let (ch, charBuffer) := cbufferPop s.charBuffer
    ({ s with charBuffer }, [.write data ch, .reply tid])

def putCharacter (notifierTid : Nat) (s : OutServer) (ch : Byte) : OutServer × List IOOutput :=
  if s.sendAddr ≠ 0 then ({ s with sendAddr := 0 }, [.write s.sendAddr ch, .reply notifierTid])
  else ({ s with charBuffer := (cbufferPush s.charBuffer ch).1 }, [])

/-- After a string was pushed: its first character goes out if the notifier waits. -/
def sendFirst (notifierTid : Nat) (s : OutServer) : OutServer × List IOOutput :=
  if ¬cbufferIsEmpty s.charBuffer ∧ s.sendAddr ≠ 0 then
    let (ch, charBuffer) := cbufferPop s.charBuffer
    (⟨0, charBuffer⟩, [.write s.sendAddr ch, .reply notifierTid])
  else (s, [])

def putString (notifierTid : Nat) (s : OutServer) (str : CString) : OutServer × List IOOutput :=
  sendFirst notifierTid { s with charBuffer := (cbufferPushStr s.charBuffer str).1 }

def putRawString (notifierTid : Nat) (s : OutServer) (str : StringBuf) :
    OutServer × List IOOutput :=
  sendFirst notifierTid { s with charBuffer := (cbufferPushString s.charBuffer str).1 }

def monitorOutServer (notifierTid : Nat) (s : OutServer) (tid : Nat) :
    IOReq → Option (OutServer × List IOOutput)
  | .notification data => some (notifyOut s tid data)
  | .putChar data =>
    let (s, sent) := putCharacter notifierTid s (charOfData data)
    some (s, sent ++ [.reply tid])
  | .putStr str =>
    let (s, sent) := putString notifierTid s str
    some (s, .reply tid :: sent)
  | _ => none

def trainOutServer (notifierTid : Nat) (s : OutServer) (tid : Nat) :
    IOReq → Option (OutServer × List IOOutput)
  | .notification data => some (notifyOut s tid data)
  | .putChar data =>
    let (s, sent) := putCharacter notifierTid s (charOfData data)
    some (s, .reply tid :: sent)
  | .putStr str =>
    let (s, sent) := putString notifierTid s str
    some (s, .reply tid :: sent)
  | .putRawStr str =>
    let (s, sent) := putRawString notifierTid s str
    some (s, .reply tid :: sent)
  | _ => none

end TrainKernel.User
