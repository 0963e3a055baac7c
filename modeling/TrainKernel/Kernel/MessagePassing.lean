import TrainKernel.Kernel.Scheduler

/-!
# Send, Receive and Reply

The handlers as a production build has them, with the assertions compiled out. A
sender that is waiting for its reply keeps the reply buffer in its receive fields.
-/

namespace TrainKernel.Kernel

open Function Library.Links

def initMessagePassing : TaskPtr → TaskQueue := fun _ => ⟨none, none⟩

def finish (k : State) (task : TaskPtr) (ret : Word) : State :=
  queueTask (taskSetRet k task ret) task

/-- Case 1 of `handleSend`: the receiver waits in Receive and gets the message at once. -/
def receiveFirst (k : State) (sendingTask receivingTask : TaskPtr) (msg msglen : Word) : State :=
  let receiver := k.tasks receivingTask
  let copiedLen := if msglen < receiver.recvLen then msglen else receiver.recvLen
  let mem := memcpy k.mem receiver.recvBuf msg copiedLen
  let index := taskGetIndex (k.tasks sendingTask)
  let k := k.setMem (storeWord mem receiver.sendId (BitVec.ofNat 32 index))
  let k := taskSetRet k receivingTask msglen
  let k := k.modify receivingTask fun d => { d with recvBuf := 0, recvLen := 0, sendId := 0 }
  let k := k.modify sendingTask fun d =>
    { d with status := .replyBlock, originalReceiverId := taskGetIndex (k.tasks receivingTask) }
  let k := k.modify receivingTask fun d => { d with status := .ready }
  queueTask k receivingTask

def enqueueSender (k : State) (sendingTask receivingTask : TaskPtr) : State :=
  let q := k.sendQueues receivingTask
  match q.tail with
  | none =>
    let k := { k with
      sendQueues := update k.sendQueues receivingTask ⟨some sendingTask, some sendingTask⟩ }
    k.setNext sendingTask none
  | some last =>
    let k := k.setNext last (some sendingTask)
    { k with sendQueues := update k.sendQueues receivingTask ⟨q.head, some sendingTask⟩ }

/-- Case 2 of `handleSend`: the sender waits until its message is received. -/
def sendFirst (k : State) (sendingTask receivingTask : TaskPtr) (msg msglen : Word) : State :=
  let k := k.modify sendingTask fun d => { d with status := .sendBlock }
  let k := enqueueSender k sendingTask receivingTask
  k.modify sendingTask fun d => { d with sendBuf := msg, sendLen := msglen }

def handleSend (k : State) (sendingTask : TaskPtr) (request : Syscall) : State :=
  let tid := request.arg1.toInt
  let msg := request.arg2
  let msglen := request.arg3
  let reply := request.arg4
  let replylen := request.arg5
  if !isValidTaskIndex tid then finish k sendingTask (-1)
  else match taskGetTDByIndex tid with
  | none => finish k sendingTask (-2)
  | some receivingTask =>
    let k := k.modify sendingTask fun d => { d with recvBuf := reply, recvLen := replylen }
    let k := k.setNext sendingTask none
    if (k.tasks receivingTask).status = .receiveBlock then
      receiveFirst k sendingTask receivingTask msg msglen
    else sendFirst k sendingTask receivingTask msg msglen

def dequeueSender (k : State) (sendingTask box : TaskPtr) : State :=
  let q := k.sendQueues box
  let rest : TaskQueue :=
    if q.tail = some sendingTask then ⟨none, none⟩ else ⟨(k.tasks sendingTask).next, q.tail⟩
  let k := { k with sendQueues := update k.sendQueues box rest }
  k.setNext sendingTask none

def handleReceive (k : State) (receivingTask : TaskPtr) (request : Syscall) : State :=
  let tid := request.arg1
  let msg := request.arg2
  let msglen := request.arg3
  let box := taskGetIndex (k.tasks receivingTask)
  match (k.sendQueues box).head with
  | none =>
    k.modify receivingTask fun d =>
      { d with sendId := tid, recvBuf := msg, recvLen := msglen, status := .receiveBlock }
  | some sendingTask =>
    let k := dequeueSender k sendingTask box
    let sender := k.tasks sendingTask
    let copiedLen := if msglen < sender.sendLen then msglen else sender.sendLen
    let mem := memcpy k.mem msg sender.sendBuf copiedLen
    let k := k.setMem (storeWord mem tid (BitVec.ofNat 32 (taskGetIndex sender)))
    let k := taskSetRet k receivingTask sender.sendLen
    let k := k.modify sendingTask fun d =>
      { d with
        sendLen := 0, sendBuf := 0, status := .replyBlock
        originalReceiverId := taskGetIndex (k.tasks receivingTask) }
    let k := k.modify receivingTask fun d => { d with status := .ready }
    queueTask k receivingTask

def handleReply (k : State) (receivingTask : TaskPtr) (request : Syscall) : State :=
  let tid := request.arg1.toInt
  let reply := request.arg2
  let replylen := request.arg3
  if !isValidTaskIndex tid then finish k receivingTask (-1)
  else match taskGetTDByIndex tid with
  | none => finish k receivingTask (-2)
  | some sendingTask =>
    let sender := k.tasks sendingTask
    if sender.status ≠ .replyBlock then finish k receivingTask (-3)
    else if sender.originalReceiverId ≠ taskGetIndex (k.tasks receivingTask) then
      finish k receivingTask (-5)
    else
      let copiedLen := if sender.recvLen < replylen then sender.recvLen else replylen
      let k := k.setMem (memcpy k.mem sender.recvBuf reply copiedLen)
      let k := taskSetRet k receivingTask (if sender.recvLen < replylen then -4 else 0)
      let k := taskSetRet k sendingTask replylen
      let k := k.modify sendingTask fun d =>
        { d with recvLen := 0, recvBuf := 0, originalReceiverId := -1 }
      let k := k.modify receivingTask fun d => { d with status := .ready }
      let k := k.modify sendingTask fun d => { d with status := .ready }
      queueTask (queueTask k sendingTask) receivingTask

end TrainKernel.Kernel
