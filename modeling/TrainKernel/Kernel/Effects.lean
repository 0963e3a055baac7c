import TrainKernel.Kernel.Queues

/-!
# What the message handlers do

Each case of a handler is one edit of the sender's card, one of the receiver's, one
change of memory and a few queue operations. The equations below put them in that
order, whatever order the code interleaves them in.
-/

namespace TrainKernel.Kernel

open Function Library.Links

variable (k : State)

@[simp] theorem setMem_card (mem : Mem) : (k.setMem mem).card = k.card := rfl

@[simp] theorem setMem_tasks (mem : Mem) : (k.setMem mem).tasks = k.tasks := rfl

theorem setMem_modify (mem : Mem) (t : TaskPtr) (f : TaskDescriptor → TaskDescriptor) :
    (k.modify t f).setMem mem = (k.setMem mem).modify t f := rfl

theorem tasks_modify_ne {t x : TaskPtr} (h : x ≠ t) (f : TaskDescriptor → TaskDescriptor) :
    (k.modify t f).tasks x = k.tasks x := update_of_ne h _ _

theorem taskGetIndex_modify (t x : TaskPtr) {f : TaskDescriptor → TaskDescriptor}
    (hf : ∀ d, (f d).id = d.id) :
    taskGetIndex ((k.modify t f).tasks x) = taskGetIndex (k.tasks x) := by
  by_cases hx : x = t
  · subst hx
    simp [State.modify, taskGetIndex, hf]
  · rw [tasks_modify_ne k hx]

theorem modify_modify (t : TaskPtr) (f g : TaskDescriptor → TaskDescriptor) :
    (k.modify t f).modify t g = k.modify t (g ∘ f) := by
  simp [State.modify]

theorem modify_comm {a b : TaskPtr} (hab : a ≠ b) (f g : TaskDescriptor → TaskDescriptor) :
    (k.modify a f).modify b g = (k.modify b g).modify a f := by
  simp only [State.modify, update_of_ne hab, update_of_ne hab.symm]
  rw [update_comm hab]

theorem setNext_self {t : TaskPtr} (h : k.next t = none) : k.setNext t none = k := by
  have hSelf : ({ k.tasks t with next := none } : TaskDescriptor) = k.tasks t := by
    rw [← h]
    rfl
  simp only [State.setNext, State.modify, hSelf, update_eq_self]

def awaitReply (reply replylen : Word) (r : TaskPtr) (d : TaskDescriptor) : TaskDescriptor :=
  { d with recvBuf := reply, recvLen := replylen, status := .replyBlock, originalReceiverId := r }

def takeMessage (msglen : Word) (d : TaskDescriptor) : TaskDescriptor :=
  { d with ret := msglen, recvBuf := 0, recvLen := 0, sendId := 0, status := .ready }

def awaitReceive (reply replylen : Word) (d : TaskDescriptor) : TaskDescriptor :=
  { d with recvBuf := reply, recvLen := replylen, status := .sendBlock }

def depositMessage (msg msglen : Word) (d : TaskDescriptor) : TaskDescriptor :=
  { d with sendBuf := msg, sendLen := msglen }

/-- The memory after `n` bytes of a message at `src` are received at `dest` and the
sender's index is stored at `p`. -/
def transfer (mem : Mem) (dest src n p : Word) (sender : TaskPtr) : Mem :=
  storeWord (memcpy mem dest src n) p (BitVec.ofNat 32 sender)

variable {k}
variable {s r : TaskPtr} {request : Syscall}

theorem handleSend_invalid (h : isValidTaskIndex request.arg1.toInt = false) :
    handleSend k s request = finish k s (-1) := by
  simp [handleSend, h]

theorem handleSend_valid (hr : taskGetTDByIndex request.arg1.toInt = some r)
    (hNext : k.next s = none) : handleSend k s request =
      let k := k.modify s fun d => { d with recvBuf := request.arg4, recvLen := request.arg5 }
      if (k.tasks r).status = .receiveBlock then receiveFirst k s r request.arg2 request.arg3
      else sendFirst k s r request.arg2 request.arg3 := by
  have hValid : isValidTaskIndex request.arg1.toInt = true :=
    taskGetTDByIndex_isSome.mp (by simp [hr])
  have hNext' : (k.modify s fun d =>
      { d with recvBuf := request.arg4, recvLen := request.arg5 }).next s = none := by
    rw [next_modify _ _ fun _ _ => rfl, hNext]
  simp only [handleSend, hValid, hr, setNext_self _ hNext', Bool.not_true, Bool.false_eq_true,
    if_false]

theorem handleSend_receiveFirst (hr : taskGetTDByIndex request.arg1.toInt = some r)
    (hNext : k.next s = none) (hStatus : (k.card r).status = .receiveBlock) (hsr : s ≠ r) :
    handleSend k s request =
      queueTask (((k.setMem (transfer k.mem (k.card r).recvBuf request.arg2
        (if request.arg3 < (k.card r).recvLen then request.arg3 else (k.card r).recvLen)
        (k.card r).sendId (taskGetIndex (k.card s)))).modify s
          (awaitReply request.arg4 request.arg5 (taskGetIndex (k.card r)))).modify r
            (takeMessage request.arg3)) r := by
  rw [handleSend_valid hr hNext]
  simp only [tasks_modify_ne _ hsr.symm]
  rw [if_pos (show (k.tasks r).status = .receiveBlock from hStatus), receiveFirst]
  congr 1
  simp only [taskSetRet, tasks_modify_ne _ hsr.symm, taskGetIndex_modify, setMem_tasks,
    implies_true, setMem_modify]
  rw [modify_comm _ hsr.symm, modify_modify, modify_comm _ hsr.symm, modify_modify, modify_modify]
  rfl

theorem handleSend_sendFirst (hr : taskGetTDByIndex request.arg1.toInt = some r)
    (hNext : k.next s = none)
    (hStatus : (k.card r).status ≠ .receiveBlock) (hs : (k.card s).status ≠ .receiveBlock) :
    handleSend k s request =
      (enqueueSender (k.modify s (awaitReceive request.arg4 request.arg5)) s r).modify s
        (depositMessage request.arg2 request.arg3) := by
  have hOther : ((k.modify s fun d =>
      { d with recvBuf := request.arg4, recvLen := request.arg5 }).tasks r).status ≠
        .receiveBlock := by
    by_cases hrs : r = s
    · subst hrs
      simpa [State.modify] using (show (k.tasks r).status ≠ .receiveBlock from hs)
    · rw [tasks_modify_ne _ hrs]
      exact hStatus
  rw [handleSend_valid hr hNext]
  simp only [if_neg hOther, sendFirst, modify_modify]
  rfl

def awaitMessage (tid msg msglen : Word) (d : TaskDescriptor) : TaskDescriptor :=
  { d with sendId := tid, recvBuf := msg, recvLen := msglen, status := .receiveBlock }

def collectMessage (r : TaskPtr) (d : TaskDescriptor) : TaskDescriptor :=
  { d with sendLen := 0, sendBuf := 0, status := .replyBlock, originalReceiverId := r }

def receiveReady (ret : Word) (d : TaskDescriptor) : TaskDescriptor :=
  { d with ret := ret, status := .ready }

theorem handleReceive_empty (h : (k.sendQueues (taskGetIndex (k.card r))).head = none) :
    handleReceive k r request =
      k.modify r (awaitMessage request.arg1 request.arg2 request.arg3) := by
  have h' : (k.sendQueues (taskGetIndex (k.tasks r))).head = none := h
  simp only [handleReceive, h']
  rfl

theorem handleReceive_queued {box : TaskPtr} (hBox : taskGetIndex (k.card r) = box)
    (h : (k.sendQueues box).head = some s) (hsr : s ≠ r) :
    handleReceive k r request =
      queueTask ((((dequeueSender k s box).setMem (transfer k.mem request.arg2 (k.card s).sendBuf
        (if request.arg3 < (k.card s).sendLen then request.arg3 else (k.card s).sendLen)
        request.arg1 (taskGetIndex (k.card s)))).modify s (collectMessage box)).modify r
          (receiveReady (k.card s).sendLen)) r := by
  have hCard : ∀ x, (dequeueSender k s box).card x = k.card x :=
    fun x => congrFun (dequeueSender_card k s box) x
  have hLen : ((dequeueSender k s box).tasks s).sendLen = (k.card s).sendLen :=
    (congrArg TaskDescriptor.sendLen (hCard s) :)
  have hBuf : ((dequeueSender k s box).tasks s).sendBuf = (k.card s).sendBuf :=
    (congrArg TaskDescriptor.sendBuf (hCard s) :)
  have hId : taskGetIndex ((dequeueSender k s box).tasks s) = taskGetIndex (k.card s) :=
    (congrArg taskGetIndex (hCard s) :)
  have hIdr : taskGetIndex ((dequeueSender k s box).tasks r) = box :=
    (congrArg taskGetIndex (hCard r) :).trans hBox
  have hBox' : taskGetIndex (k.tasks r) = box := hBox
  simp only [handleReceive, hBox', h]
  congr 1
  simp only [taskSetRet, taskGetIndex_modify, setMem_tasks, implies_true, hLen, hBuf, hId, hIdr]
  rw [modify_comm _ hsr.symm, modify_modify]
  rfl

def takeReply (replylen : Word) (d : TaskDescriptor) : TaskDescriptor :=
  { d with ret := replylen, recvLen := 0, recvBuf := 0, originalReceiverId := -1, status := .ready }

theorem handleReply_invalid (h : isValidTaskIndex request.arg1.toInt = false) :
    handleReply k r request = finish k r (-1) := by
  simp [handleReply, h]

theorem handleReply_notBlocked (hs : taskGetTDByIndex request.arg1.toInt = some s)
    (hStatus : (k.card s).status ≠ .replyBlock) : handleReply k r request = finish k r (-3) := by
  have hValid : isValidTaskIndex request.arg1.toInt = true :=
    taskGetTDByIndex_isSome.mp (by simp [hs])
  have hStatus' : (k.tasks s).status ≠ .replyBlock := hStatus
  simp [handleReply, hValid, hs, hStatus']

theorem handleReply_notReceiver (hs : taskGetTDByIndex request.arg1.toInt = some s)
    (hStatus : (k.card s).status = .replyBlock)
    (hId : (k.card s).originalReceiverId ≠ taskGetIndex (k.card r)) :
    handleReply k r request = finish k r (-5) := by
  have hValid : isValidTaskIndex request.arg1.toInt = true :=
    taskGetTDByIndex_isSome.mp (by simp [hs])
  have hStatus' : (k.tasks s).status = .replyBlock := hStatus
  have hId' : (k.tasks s).originalReceiverId ≠ taskGetIndex (k.tasks r) := hId
  simp [handleReply, hValid, hs, hStatus', hId']

theorem handleReply_answers (hs : taskGetTDByIndex request.arg1.toInt = some s)
    (hStatus : (k.card s).status = .replyBlock)
    (hId : (k.card s).originalReceiverId = taskGetIndex (k.card r)) (hsr : s ≠ r) :
    handleReply k r request =
      queueTask (queueTask (((k.setMem (memcpy k.mem (k.card s).recvBuf request.arg2
        (if (k.card s).recvLen < request.arg3 then (k.card s).recvLen else request.arg3))).modify r
          (receiveReady (if (k.card s).recvLen < request.arg3 then -4 else 0))).modify s
            (takeReply request.arg3)) s) r := by
  have hValid : isValidTaskIndex request.arg1.toInt = true :=
    taskGetTDByIndex_isSome.mp (by simp [hs])
  have hStatus' : (k.tasks s).status = .replyBlock := hStatus
  have hId' : (k.tasks s).originalReceiverId = taskGetIndex (k.tasks r) := hId
  simp only [handleReply, hValid, hs, hStatus', hId', Bool.not_true, Bool.false_eq_true, if_false,
    ne_eq, not_true_eq_false]
  congr 2
  simp only [taskSetRet]
  rw [modify_modify, modify_comm _ hsr, modify_modify, modify_modify]
  rfl

end TrainKernel.Kernel
