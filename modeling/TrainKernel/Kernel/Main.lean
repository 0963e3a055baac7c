import TrainKernel.Kernel.MessagePassing
import TrainKernel.Kernel.Interrupts

/-!
# The kernel main loop

One iteration takes the next task from the scheduler, lets it run until it traps and
handles the trap. While the task runs, user memory may change in any way.
-/

namespace TrainKernel.Kernel

open Function Library.Links

def priorityInit : Int := 0

/-- The static data once every `init` function has run. Memory and the UART control
registers hold what they held before: the kernel does not choose them. -/
def initState (mem : Mem) (uart1Ctlr uart2Ctlr : Word) : State where
  tasks := initTasks
  nextUniqueTaskId := 1
  currentStackAddress := taskStackHigh
  queueStatus := 0
  readyQueues _ := ⟨none, none⟩
  sendQueues := initMessagePassing
  eventTable _ := none
  ctsOn := -1
  xmitRdy := -1
  uart1Ctlr := uart1Ctlr
  uart2Ctlr := uart2Ctlr
  mem := mem

/-- `bootstrapTask` is the address of the first task's code. -/
def initKernel (mem : Mem) (uart1Ctlr uart2Ctlr bootstrapTask : Word) : State :=
  let (createRet, k) := taskCreate (initState mem uart1Ctlr uart2Ctlr) priorityInit bootstrapTask 0
  match taskGetTDById createRet.toNat with
  | none => k
  | some td => queueTask k td

inductive Trap where
  | interrupt (hw : Hardware)
  | request (call : Syscall)
deriving DecidableEq

/-- The case of `Create` in `handleRequest`, before its `break`. -/
def requestCreate (k : State) (td : TaskPtr) (request : Syscall) : State :=
  let (createRet, k) := taskCreate k request.arg1.toInt request.arg2 (taskGetIndex (k.tasks td))
  if 0 ≤ createRet then
    let k := taskSetRet k td (BitVec.ofNat 32 (taskGetIndexById createRet.toNat))
    match taskGetTDById createRet.toNat with
    | none => k
    | some task => queueTask k task
  else taskSetRet k td (BitVec.ofInt 32 createRet)

def requestSpawn (k : State) (td : TaskPtr) (request : Syscall) : State :=
  match taskSpawn k request.arg1.toInt request.arg2 request.arg3 (taskGetIndex (k.tasks td)) with
  | (none, k) => taskSetRet k td (-1)
  | (some task, k) =>
    let k := queueTask k task
    taskSetRet k td (BitVec.ofNat 32 (taskGetIndex (k.tasks task)))

/-- `none` stops the main loop: the call was `Halt`, or the kernel hangs. -/
def handleRequest (k : State) (td : TaskPtr) (trap : Trap) : Option State :=
  match trap with
  | .interrupt hw => (handleInterrupt k hw).map fun k => addToFront k td
  | .request request =>
    if request.type = sysAwaitEvent then
      match awaitInterrupt k td request.arg1 with
      | (ret, k) => some (if ret = -1 then queueTask (taskSetRet k td (-1)) td else k)
    else if request.type = sysSend then some (handleSend k td request)
    else if request.type = sysReceive then some (handleReceive k td request)
    else if request.type = sysReply then some (handleReply k td request)
    else if request.type = sysCreate then
      some (queueTask (requestCreate k td request) td)
    else if request.type = sysSpawn then
      some (queueTask (requestSpawn k td request) td)
    else if request.type = sysMyTid then
      some (queueTask (taskSetRet k td (BitVec.ofNat 32 (taskGetIndex (k.tasks td)))) td)
    else if request.type = sysMyParentTid then
      some (queueTask (taskSetRet k td (BitVec.ofNat 32 (taskGetMyParentIndex (k.tasks td)))) td)
    else if request.type = sysPass then some (queueTask k td)
    else if request.type = sysExit then some (taskExit k td)
    else if request.type = sysHalt then none
    else some (queueTask k td)

/-- What one iteration of the main loop takes from outside: the trap, the memory the
task leaves behind and the time it ran. -/
structure Turn where
  trap : Trap
  mem : Mem
  diff : Word

def dispatch (k : State) (turn : Turn) : Option (TaskPtr × State) :=
  (schedule k).map fun (task, k) =>
    (task, (k.setMem turn.mem).modify task fun d =>
      { d with cpuTimeUsed := d.cpuTimeUsed + turn.diff })

def mainLoop (k : State) (turn : Turn) : Option State :=
  (dispatch k turn).bind fun (task, k) => handleRequest k task turn.trap

end TrainKernel.Kernel
