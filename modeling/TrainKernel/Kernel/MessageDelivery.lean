import TrainKernel.Kernel.TaskPlacement

/-!
# What becomes of a message

The protocol behind the three handlers settles order and number; here the contents are
added: which bytes are copied where, what the two calls return, and that a Reply with
an error code does nothing to its target.
-/

namespace TrainKernel.Kernel

open Function Library.Links Library.Rendezvous

variable {k k' : State} {mail : TaskPtr → List TaskPtr} {place : TaskPtr → Place}
variable {h : History} {t r s : TaskPtr} {running : Option TaskPtr} {call : Syscall}

/-- The message of the call `send` of `s` reaches the call `receive` of `r`, which returns. -/
structure Delivered (k k' : State) (s r : TaskPtr) (send receive : Syscall) : Prop where
  target : sendTarget send = some r
  receive_type : receive.type = sysReceive
  mem : k'.mem = storeWord (memcpy k.mem receive.arg2 send.arg2 (minLen send.arg3 receive.arg3))
    receive.arg1 (BitVec.ofNat 32 s)
  reported : loadWord k'.mem (wordAt receive.arg1) = BitVec.ofNat 32 s
  ret : (k'.tasks r).ret = send.arg3
  ready : (k'.tasks r).status = .ready

structure Answered (k k' : State) (s r : TaskPtr) (send reply : Syscall) : Prop where
  target : sendTarget send = some r
  reply_type : reply.type = sysReply
  mem : k'.mem = memcpy k.mem send.arg4 reply.arg2 (minLen reply.arg3 send.arg5)
  ret_sender : (k'.tasks s).ret = reply.arg3
  ret_receiver : (k'.tasks r).ret = if send.arg5 < reply.arg3 then -4 else 0
  ready : (k'.tasks s).status = .ready

/-- What a call of `t` does for one entry of the log; `h'` knows the last calls. -/
def Handed (k k' : State) (t : TaskPtr) (call : Syscall) (h' : History) (x : Entry TaskPtr) :
    Prop :=
  match x.stage with
  | .sent => x.sender = t ∧ sendTarget call = some x.receiver
  | .received =>
    Delivered k k' x.sender x.receiver (h'.lastSend x.sender).2 (h'.lastReceive x.receiver)
  | .answered => x.receiver = t ∧ Answered k k' x.sender t (h'.lastSend x.sender).2 call

theorem Tracks.delivers_send (hTracks : Tracks k mail place h) (hs : place s = .running)
    (hr : place r = .receiving) (hType : call.type = sysSend)
    (hTarget : taskGetTDByIndex call.arg1.toInt = some r) :
    Delivered k (handleSend k s call) s r call (h.lastReceive r) := by
  obtain ⟨-, hCard, hMem⟩ := hTracks.placed.handleSend_receiveFirst hs hr hTarget
  have hHolds := hTracks.holds r
  rw [hr] at hHolds
  obtain ⟨hReceive, hId, hBuf, hLen⟩ := hHolds
  have hCardr : (handleSend k s call).card r = takeMessage call.arg3 (k.card r) := by
    rw [hCard, update_self]
  rw [hId, hBuf, hLen] at hMem
  exact ⟨(sendTarget_of_type hType).trans hTarget, hReceive, hMem,
    by rw [hMem, transfer, loadWord_storeWord_wordAt], (congrArg TaskDescriptor.ret hCardr :),
    (congrArg TaskDescriptor.status hCardr :)⟩

theorem Tracks.delivers_receive {l : List TaskPtr} (hTracks : Tracks k mail place h)
    (hr : place r = .running) (hMail : mail r = s :: l) (hType : call.type = sysReceive) :
    Delivered k (handleReceive k r call) s r (h.lastSend s).2 call := by
  obtain ⟨-, hCard, hMem⟩ := hTracks.placed.handleReceive_queued call hr hMail
  have hs : place s = .sending r := (hTracks.placed.mem_mail_iff s r).mp (by simp [hMail])
  have hHolds := hTracks.holds s
  rw [hs] at hHolds
  obtain ⟨hTarget, hBuf, hLen, -⟩ := hHolds
  have hCardr : (handleReceive k r call).card r =
      receiveReady (k.card s).sendLen (k.card r) := by
    rw [hCard, update_self]
  rw [hBuf, hLen] at hMem
  refine ⟨hTarget, hType, ?_, by rw [hMem, transfer, loadWord_storeWord_wordAt],
    (congrArg TaskDescriptor.ret hCardr :).trans hLen, (congrArg TaskDescriptor.status hCardr :)⟩
  rw [hMem, minLen_comm]
  rfl

theorem Tracks.answers_reply (hTracks : Tracks k mail place h) (hr : place r = .running)
    (hs : place s = .replying r) (hType : call.type = sysReply)
    (hTarget : taskGetTDByIndex call.arg1.toInt = some s) :
    Answered k (handleReply k r call) s r (h.lastSend s).2 call := by
  obtain ⟨-, hCard, hMem⟩ := hTracks.placed.handleReply_answers hr hs hTarget
  have hHolds := hTracks.holds s
  rw [hs] at hHolds
  obtain ⟨hSend, hBuf, hLen⟩ := hHolds
  have hsr : r ≠ s := by
    rintro rfl
    simp [hr] at hs
  have hCards : (handleReply k r call).card s = takeReply call.arg3 (k.card s) := by
    rw [hCard, update_self]
  have hCardr : (handleReply k r call).card r =
      receiveReady (if (k.card s).recvLen < call.arg3 then -4 else 0) (k.card r) := by
    rw [hCard, update_of_ne hsr, update_self]
  refine ⟨hSend, hType, ?_, (congrArg TaskDescriptor.ret hCards :), ?_,
    (congrArg TaskDescriptor.status hCards :)⟩
  · rw [hMem, hBuf, hLen, minLen_comm]
    rfl
  · rw [← hLen]
    exact (congrArg TaskDescriptor.ret hCardr :)

theorem handleRequest_send (hType : call.type = sysSend) :
    handleRequest k t (.request call) = some (handleSend k t call) := by
  rw [handleRequest, if_neg (by rw [hType]; decide), if_pos hType]

theorem handleRequest_receive (hType : call.type = sysReceive) :
    handleRequest k t (.request call) = some (handleReceive k t call) := by
  rw [handleRequest, if_neg (by rw [hType]; decide), if_neg (by rw [hType]; decide),
    if_pos hType]

theorem handleRequest_reply (hType : call.type = sysReply) :
    handleRequest k t (.request call) = some (handleReply k t call) := by
  rw [handleRequest, if_neg (by rw [hType]; decide), if_neg (by rw [hType]; decide),
    if_neg (by rw [hType]; decide), if_pos hType]

/-- Every entry that a call adds to the log has been carried out. -/
theorem Tracks.handed (hTracks : Tracks k mail place h) (ht : place t = .running)
    (hHandle : handleRequest k t (.request call) = some k') :
    ∀ x ∈ h.entries k t call, Handed k k' t call (h.record k t (.request call)) x := by
  intro x hx
  rw [History.entries] at hx
  cases hSend : sendTarget call with
  | some r =>
    have hType : call.type = sysSend := by
      by_contra hNe
      rw [sendTarget_of_ne hNe] at hSend
      cases hSend
    have hTarget := (sendTarget_of_type hType).symm.trans hSend
    rw [handleRequest_send hType, Option.some.injEq] at hHandle
    rw [record_send hType hTarget, ← hHandle]
    rw [hSend] at hx
    rcases List.mem_cons.mp hx with rfl | hx
    · exact ⟨rfl, hSend⟩
    · split at hx
      · rename_i hStatus
        rw [List.mem_singleton] at hx
        subst hx
        simp only [Handed, update_self]
        exact hTracks.delivers_send ht ((hTracks.receiving_iff r).mp hStatus) hType hTarget
      · cases hx
  | none =>
    rw [hSend] at hx
    dsimp only at hx
    split at hx
    · rename_i hType
      rw [handleRequest_receive hType, Option.some.injEq] at hHandle
      have hHead := hTracks.head ht
      cases hMail : mail t with
      | nil =>
        rw [hHead, hMail] at hx
        cases hx
      | cons s l =>
        rw [hHead, hMail] at hx
        obtain rfl := List.mem_singleton.mp hx
        rw [record_receive hType rfl, ← hHandle]
        simp only [Handed, update_self]
        exact hTracks.delivers_receive ht hMail hType
    · cases hReply : replyTarget k t call with
      | none =>
        rw [hReply] at hx
        cases hx
      | some s =>
        have hType : call.type = sysReply := by
          by_contra hNe
          rw [replyTarget_of_ne hNe] at hReply
          cases hReply
        rw [handleRequest_reply hType, Option.some.injEq] at hHandle
        rw [hReply] at hx
        obtain rfl := List.mem_singleton.mp hx
        rw [record_reply hType hReply, ← hHandle]
        rcases hTracks.reply_cases ht hType with ⟨s', hTarget, hs, hEq⟩ | ⟨hNone, -⟩
        · obtain rfl : s' = s := Option.some.inj (hEq.symm.trans hReply)
          exact ⟨rfl, hTracks.answers_reply ht hs hType hTarget⟩
        · rw [hReply] at hNone
          cases hNone

/-- `r` gets the return value `ret` and joins its ready queue, and nothing else happens but
that the last task of that queue is linked to it. -/
structure Refused (k k' : State) (r : TaskPtr) (ret : Word) : Prop where
  mem : k'.mem = k.mem
  sendQueues : k'.sendQueues = k.sendQueues
  links : ∀ x l, Represents k.next (k.sendQueues x) l → Represents k'.next (k'.sendQueues x) l
  caller : k'.tasks r = { k.tasks r with ret := ret }
  other : ∀ x, x ≠ r → k'.card x = k.card x
  next : ∀ x, x ≠ r → (k.readyQueues (taskGetPriority (k.card r))).tail ≠ some x →
    k'.tasks x = k.tasks x

theorem tasks_eq_of_card {x : TaskPtr} (hCard : k'.card x = k.card x)
    (hNext : k'.next x = k.next x) : k'.tasks x = k.tasks x := by
  have hSplit (k : State) : k.tasks x = { k.card x with next := k.next x } := rfl
  rw [hSplit k', hSplit k, hCard, hNext]

theorem Tracks.refuses (hTracks : Tracks k mail place h) (hr : place r = .running) (ret : Word) :
    Refused k (finish k r ret) r ret := by
  have hCard : (finish k r ret).card = update k.card r { k.card r with ret := ret } := by
    rw [finish, queueTask_card, taskSetRet, card_modify _ _ fun _ _ => rfl]
  have hNext : (finish k r ret).next =
      (enqueue k.next (k.queue (.ready (taskGetPriority (k.card r)))) r).1 := by
    have hPriority : taskGetPriority ((taskSetRet k r ret).tasks r) =
        taskGetPriority (k.card r) := by
      simp [taskSetRet, State.modify, taskGetPriority, State.card]
    rw [finish, queueTask_next, hPriority, taskSetRet, next_modify _ _ fun _ _ => rfl, queue_modify]
  have hFinish := Keeps.finish hTracks.placed hr ret
  have hQueues : (finish k r ret).sendQueues = k.sendQueues := queueTask_sendQueues _ r
  refine ⟨queueTask_mem _ r, hQueues, ?_, ?_, ?_, ?_⟩
  · intro x l hRep
    obtain ⟨lists, hMail, hPlaced⟩ := hTracks.placed
    obtain ⟨lists', hMail', hPlaced'⟩ := hFinish.placed
    have hNew := hPlaced'.linked.family.represents (.mail x)
    rw [hMail', ← hMail, (hPlaced.linked.family.represents (.mail x)).unique hRep] at hNew
    exact hNew
  · have hSplit (k : State) : k.tasks r = { k.card r with next := k.next r } := rfl
    have hLast : (k.queue (.ready (taskGetPriority (k.card r)))).tail ≠ some r := by
      obtain ⟨lists, -, hPlaced⟩ := hTracks.placed
      rw [(hPlaced.linked.family.represents _).tail]
      intro hLast
      have hMember := ((hPlaced.at_place r).member _).mp (List.mem_of_getLast? hLast)
      rw [hr] at hMember
      cases hMember
    have hOwn : (finish k r ret).next r = k.next r := by
      rw [hTracks.placed.next_eq_none hr, hNext, enqueue]
      cases hTail : (k.queue (.ready (taskGetPriority (k.card r)))).tail with
      | none => exact update_self ..
      | some last =>
        have hNe : r ≠ last := by
          rintro rfl
          exact hLast hTail
        simp only [update_of_ne hNe, update_self]
    rw [hSplit (finish k r ret), hSplit k, hCard, update_self, hOwn]
  · intro x hx
    rw [hCard, update_of_ne hx]
  · intro x hx hTail
    apply tasks_eq_of_card
    · rw [hCard, update_of_ne hx]
    · rw [hNext, enqueue]
      cases hLast : (k.queue (.ready (taskGetPriority (k.card r)))).tail with
      | none => exact update_of_ne hx _ _
      | some last =>
        have hNe : x ≠ last := by
          rintro rfl
          exact hTail hLast
        simp only [update_of_ne hNe, update_of_ne hx]

theorem Tracks.reply_refused (hTracks : Tracks k mail place h) (hr : place r = .running)
    (hType : call.type = sysReply)
    (hHandle : handleRequest k r (.request call) = some k')
    (hRet : (k'.tasks r).ret = -1 ∨ (k'.tasks r).ret = -3 ∨ (k'.tasks r).ret = -5) :
    Refused k k' r (k'.tasks r).ret := by
  rw [handleRequest_reply hType, Option.some.injEq] at hHandle
  rcases hTracks.reply_cases hr hType with ⟨s, hTarget, hs, -⟩ | ⟨-, ret, -, hEq⟩
  · have hAnswered := (hTracks.answers_reply hr hs hType hTarget).ret_receiver
    rw [hHandle] at hAnswered
    rw [hAnswered] at hRet
    split at hRet <;> exact absurd hRet (by decide)
  · have hRefused := hTracks.refuses hr ret
    rw [← hEq, hHandle] at hRefused
    have hCaller := (congrArg TaskDescriptor.ret hRefused.caller :)
    have hEqRet : (k'.tasks r).ret = ret := hCaller
    rwa [hEqRet]

/-- Beyond its settled messages `l`, the account of `s` holds what its status shows. -/
def Standing (d : TaskDescriptor) (s : TaskPtr) (l log : List (Entry TaskPtr)) : Prop :=
  match d.status with
  | .sendBlock => ∃ n r, log = l ++ [⟨.sent, n, s, r⟩]
  | .replyBlock => ∃ (n : Nat) (r : TaskPtr), log = l ++ [⟨.sent, n, s, r⟩, ⟨.received, n, s, r⟩] ∧
      d.originalReceiverId = r
  | _ => log = l

theorem Tracks.standing (hTracks : Tracks k mail place h) (s : TaskPtr) :
    ∃ l, Settled s l ∧ Standing (k.tasks s) s l (account s h.log) := by
  obtain ⟨l, hl, hAccount⟩ := hTracks.protocol.ledger.settled s
  have hStatus : (k.tasks s).status = (place s).status := (hTracks.placed.fits s).status
  refine ⟨l, hl, ?_⟩
  rw [Standing, hStatus]
  change account s h.log = l ++ (place s).phase.opened (h.lastSend s).1 s at hAccount
  cases hPlace : place s <;>
    simp only [hPlace, Place.phase, Phase.opened, List.append_nil] at hAccount <;>
    simp only [Place.status, hAccount]
  · exact ⟨_, _, rfl⟩
  · exact ⟨_, _, rfl, (hTracks.placed.fits s).origin _ hPlace⟩

/-- Messages are received in the order in which they were sent and at most once; a sender
stays blocked from its Send until its receiver answers it, once; what is received and what
is answered are the bytes, lengths and buffers that the calls name; and a Reply that
returns an error changes only its caller and the links of one ready queue. -/
theorem rendezvous (hReach : Reaches running k h) :
    (∀ r, serials .received r h.log <+: serials .sent r h.log ∧
      (serials .sent r h.log).Pairwise (· < ·)) ∧
    (∀ s, ∃ l, Settled s l ∧ Standing (k.tasks s) s l (account s h.log)) ∧
    ∀ t call k', running = some t → handleRequest k t (.request call) = some k' →
      (∀ x ∈ h.entries k t call, Handed k k' t call (h.record k t (.request call)) x) ∧
      (call.type = sysReply →
        (k'.tasks t).ret = -1 ∨ (k'.tasks t).ret = -3 ∨ (k'.tasks t).ret = -5 →
          Refused k k' t (k'.tasks t).ret) := by
  obtain ⟨mail, place, hTracks, hRunning⟩ := hReach.tracked
  refine ⟨?_, hTracks.standing, ?_⟩
  · intro r
    exact ⟨hTracks.protocol.received_prefix r, hTracks.protocol.ledger.increasing r⟩
  · intro t call k' hRun hHandle
    have ht : place t = .running := (hRunning t).mpr hRun
    exact ⟨hTracks.handed ht hHandle, fun hType hRet => hTracks.reply_refused ht hType hHandle hRet⟩

/-- The first task creates a second one, which waits in Receive, and sends it five bytes. -/
theorem rendezvous_example : ∃ k k', Delivered k k' 1 2
    { type := sysSend, arg1 := 2, arg2 := 0x300, arg3 := 5, arg4 := 0x400, arg5 := 4 }
    { type := sysReceive, arg1 := 0x100, arg2 := 0x200, arg3 := 8 } := by
  have hStart := Reaches.start (fun _ => 0) 0 0 (by decide : (1 : Word) ≠ 0)
  have hFirst := hStart.dispatch (rfl : dispatch _ ⟨.request { type := 0 }, fun _ => 0, 0⟩ = _)
  have hCreated := hFirst.handle (by nofun)
    (rfl : handleRequest _ 1 (.request { type := sysCreate, arg1 := 0, arg2 := 1 }) = _)
  have hSecond := hCreated.dispatch (rfl : dispatch _ ⟨.request { type := 0 }, fun _ => 0, 0⟩ = _)
  have hWaits := hSecond.handle (by nofun) (rfl : handleRequest _ 2 (.request
    { type := sysReceive, arg1 := 0x100, arg2 := 0x200, arg3 := 8 }) = _)
  have hBack := hWaits.dispatch (rfl : dispatch _ ⟨.request { type := 0 }, fun _ => 0, 0⟩ = _)
  have hSend := ((rendezvous hBack).2.2 1 _ _ rfl (rfl : handleRequest _ 1 (.request
    { type := sysSend, arg1 := 2, arg2 := 0x300, arg3 := 5, arg4 := 0x400, arg5 := 4 }) = _)).1
  have hDelivered := hSend ⟨.received, 2, 1, 2⟩ (by decide)
  exact ⟨_, _, hDelivered⟩

/-- A Reply to a task that waits for none is refused, but the caller is queued behind its
target, whose descriptor is written for that. -/
theorem reply_refused_links_target : ¬∀ k h r s call k', Reaches (some r) k h →
    handleRequest k r (.request call) = some k' → call.type = sysReply →
    taskGetTDByIndex call.arg1.toInt = some s →
    ((k'.tasks r).ret = -1 ∨ (k'.tasks r).ret = -3 ∨ (k'.tasks r).ret = -5) →
    k'.tasks s = k.tasks s ∧ k'.sendQueues = k.sendQueues := by
  intro hUnchanged
  have hStart := Reaches.start (fun _ => 0) 0 0 (by decide : (1 : Word) ≠ 0)
  have hFirst := hStart.dispatch (rfl : dispatch _ ⟨.request { type := 0 }, fun _ => 0, 0⟩ = _)
  have hCreated := hFirst.handle (by nofun)
    (rfl : handleRequest _ 1 (.request { type := sysCreate, arg1 := 0, arg2 := 1 }) = _)
  have hSecond := hCreated.dispatch (rfl : dispatch _ ⟨.request { type := 0 }, fun _ => 0, 0⟩ = _)
  have hSame := (hUnchanged _ _ 2 1 { type := sysReply, arg1 := 1 } _ hSecond rfl rfl rfl
    (by decide)).1
  exact absurd (congrArg TaskDescriptor.next hSame) (by decide)

end TrainKernel.Kernel
