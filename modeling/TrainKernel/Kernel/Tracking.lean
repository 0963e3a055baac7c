import TrainKernel.Kernel.History

/-!
# One trap after another

Each trap takes a tracked state to a tracked state. The traps that hand over messages
are steps of the rendezvous protocol, and all others leave it alone.
-/

namespace TrainKernel.Kernel

open Function Library.Links Library.Rendezvous

def Parked (k : State) (h : History) : Prop :=
  ∃ mail place, Tracks k mail place h ∧ ∀ x, place x ≠ .running

def Running (t : TaskPtr) (k : State) (h : History) : Prop :=
  ∃ mail place, Tracks k mail place h ∧ ∀ x, place x = .running ↔ x = t

variable {k k' : State} {mail : TaskPtr → List TaskPtr} {place place' : TaskPtr → Place}
variable {h : History} {t r s : TaskPtr} {p : Place} {call : Syscall}

theorem parked_update (hOnly : ∀ x, place x = .running ↔ x = t) (hp : p ≠ .running)
    (x : TaskPtr) : update place t p x ≠ .running := by
  by_cases hx : x = t
  · subst hx
    rwa [update_self]
  · rw [update_of_ne hx]
    exact fun hRun => hx ((hOnly x).mp hRun)

/-- A call that neither sends, receives, answers, creates nor exits. -/
structure Quiet (k : State) (t : TaskPtr) (call : Syscall) : Prop where
  send : sendTarget call = none
  receive : call.type ≠ sysReceive
  reply : replyTarget k t call = none
  exit : call.type ≠ sysExit
  create : createdTask k t call = none

theorem Quiet.record (hQuiet : Quiet k t call) (h : History) :
    h.record k t (.request call) = { h with turns := h.turns + 1 } := by
  simp [History.record, History.entries, hQuiet.send, hQuiet.receive, hQuiet.reply, hQuiet.exit,
    hQuiet.create]

theorem sendTarget_of_ne (h : call.type ≠ sysSend) : sendTarget call = none := if_neg h

theorem sendTarget_of_type (h : call.type = sysSend) :
    sendTarget call = taskGetTDByIndex call.arg1.toInt := if_pos h

theorem replyTarget_of_ne (h : call.type ≠ sysReply) : replyTarget k t call = none := if_neg h

theorem createdTask_of_ne (hCreate : call.type ≠ sysCreate) (hSpawn : call.type ≠ sysSpawn) :
    createdTask k t call = none := by
  rw [createdTask, if_neg hCreate, if_neg hSpawn]

theorem Quiet.of_type (hSend : call.type ≠ sysSend) (hReceive : call.type ≠ sysReceive)
    (hReply : call.type ≠ sysReply) (hExit : call.type ≠ sysExit)
    (hCreate : call.type ≠ sysCreate) (hSpawn : call.type ≠ sysSpawn) : Quiet k t call :=
  ⟨sendTarget_of_ne hSend, hReceive, replyTarget_of_ne hReply, hExit,
    createdTask_of_ne hCreate hSpawn⟩

theorem Tracks.parks_quiet (hTracks : Tracks k mail place h)
    (hOnly : ∀ x, place x = .running ↔ x = t) (hQuiet : Quiet k t call)
    (hKeeps : Keeps k mail place k' (update place t p)) (hp : p ≠ .running)
    (hAbsent : p ≠ .absent) :
    Parked k' (h.record k t (.request call)) := by
  have ht : place t ≠ .absent := by
    rw [(hOnly t).mpr rfl]
    simp
  rw [hQuiet.record]
  exact ⟨mail, _, hTracks.pass hKeeps rfl rfl rfl rfl (live_update hTracks.live ht hAbsent),
    parked_update hOnly hp⟩

theorem Tracks.finishes (hTracks : Tracks k mail place h)
    (hOnly : ∀ x, place x = .running ↔ x = t) (hQuiet : Quiet k t call) (ret : Word) :
    Parked (finish k t ret) (h.record k t (.request call)) :=
  hTracks.parks_quiet hOnly hQuiet (Keeps.finish hTracks.placed ((hOnly t).mpr rfl) ret)
    (by simp) (by simp)

theorem Tracks.requeues (hTracks : Tracks k mail place h)
    (hOnly : ∀ x, place x = .running ↔ x = t) (hQuiet : Quiet k t call) :
    Parked (queueTask k t) (h.record k t (.request call)) :=
  hTracks.parks_quiet hOnly hQuiet (Keeps.queueTask hTracks.placed ((hOnly t).mpr rfl))
    (by simp) (by simp)

theorem Running.interrupt {hw : Hardware} (hRun : Running t k h)
    (hHandle : handleInterrupt k hw = some k') :
    Parked (addToFront k' t) (h.record k t (.interrupt hw)) := by
  obtain ⟨mail, place, hTracks, hOnly⟩ := hRun
  obtain ⟨place', hKeeps, hOnly', hAbsent⟩ := Keeps.handleInterrupt hTracks.placed hOnly hHandle
  have ht : place' t = .running := (hOnly' t).mpr rfl
  have hLive (x : TaskPtr) : h.live x = true ↔ place' x ≠ .absent :=
    (hTracks.live x).trans (hAbsent x).not.symm
  exact ⟨mail, _, hTracks.pass (hKeeps.trans (Keeps.addToFront hKeeps.placed ht)) rfl rfl rfl rfl
    (live_update hLive (by simp [ht]) (by simp)), parked_update hOnly' (by simp)⟩

theorem Running.awaitEvent (hRun : Running t k h) (hType : call.type = sysAwaitEvent)
    (hAllowed : Allowed k (.request call)) (hHandle : handleRequest k t (.request call) = some k') :
    Parked k' (h.record k t (.request call)) := by
  obtain ⟨mail, place, hTracks, hOnly⟩ := hRun
  have hQuiet : Quiet k t call := by
    apply Quiet.of_type <;> rw [hType] <;> decide
  have ht : place t = .running := (hOnly t).mpr rfl
  simp only [handleRequest, hType, if_true, Option.some.injEq] at hHandle
  rcases awaitInterrupt_cases k t call.arg1 with hEq | ⟨e, k₁, hEvent, hSame, hEq⟩
  · simp only [hEq, if_true] at hHandle
    rw [← hHandle]
    exact hTracks.finishes hOnly hQuiet (-1)
  · have hRet : ¬(0 : Int) = -1 := by decide
    simp only [hEq, hRet, if_false] at hHandle
    have hFree : k₁.eventTable e = none := by
      rw [hSame.eventTable]
      exact hAllowed hType e hEvent
    have hKeeps := Keeps.congr hTracks.placed hSame
    have hAwaits : Keeps k₁ mail place
        ({ k₁ with eventTable := update k₁.eventTable e (some t) } : State)
        (update place t (.awaiting e)) :=
      ⟨hKeeps.placed.await ht hFree, phase_update (by rw [ht]; rfl) rfl, fun _ _ => rfl⟩
    rw [← hHandle]
    exact hTracks.parks_quiet hOnly hQuiet (hKeeps.trans hAwaits) (by simp) (by simp)

theorem Tracks.positive (hTracks : Tracks k mail place h) (ht : place t = .running) :
    0 < k.nextUniqueTaskId :=
  Nat.lt_of_le_of_lt (Nat.zero_le _) (hTracks.placed.created (t := t) (by simp [ht])).2

theorem Tracks.parks_created {index : TaskPtr} (hTracks : Tracks k mail place h)
    (hOnly : ∀ x, place x = .running ↔ x = t) (hSend : sendTarget call = none)
    (hReceive : call.type ≠ sysReceive) (hReply : replyTarget k t call = none)
    (hExit : call.type ≠ sysExit) (hCreated : createdTask k t call = some index)
    (hNe : t ≠ index)
    (hKeeps : Keeps k mail place k' (update (update place index .ready) t .ready)) :
    Parked k' (h.record k t (.request call)) := by
  have hRecord : h.record k t (.request call) =
      { h with turns := h.turns + 1, live := update h.live index true } := by
    simp [History.record, History.entries, hSend, hReceive, hReply, hExit, hCreated]
  rw [hRecord]
  refine ⟨mail, _, hTracks.pass hKeeps rfl rfl rfl rfl ?_, ?_⟩
  · intro x
    by_cases hx : x = index
    · subst hx
      simp [hNe.symm]
    · by_cases hxt : x = t
      · subst hxt
        simp [hNe, hTracks.live, (hOnly x).mpr rfl]
      · simp [hx, hxt, hTracks.live]
  · intro x
    by_cases hxt : x = t
    · subst hxt
      simp
    · by_cases hx : x = index
      · subst hx
        simp [hxt]
      · simp [hx, hxt, hOnly]

theorem Keeps.queueNew {index : TaskPtr} {k₁ : State}
    (h : Placed k₁ mail (update place index .running)) :
    Keeps k₁ mail (update place index .running) (Kernel.queueTask k₁ index)
      (update place index .ready) := by
  have hQueued := Keeps.queueTask h (update_self ..)
  rwa [update_idem] at hQueued

theorem taskGetTDById_eq {id : Nat} {index : TaskPtr} (hId : taskGetIndexById id = index)
    (hPos : index.val ≠ 0) : taskGetTDById id = some index := by
  rw [taskGetTDById, hId, taskGetTDByIndex_eq_some_iff]
  omega

theorem Running.create (hRun : Running t k h) (hType : call.type = sysCreate) :
    Parked (queueTask (requestCreate k t call) t) (h.record k t (.request call)) := by
  obtain ⟨mail, place, hTracks, hOnly⟩ := hRun
  have ht : place t = .running := (hOnly t).mpr rfl
  have hSend : sendTarget call = none := sendTarget_of_ne (by rw [hType]; decide)
  have hReceive : call.type ≠ sysReceive := by rw [hType]; decide
  have hReply : replyTarget k t call = none := replyTarget_of_ne (by rw [hType]; decide)
  have hExit : call.type ≠ sysExit := by rw [hType]; decide
  have hCreated : createdTask k t call =
      if 0 ≤ (taskCreate k call.arg1.toInt call.arg2 (taskGetIndex (k.tasks t))).1 then
        some (taskGetIndexById
          (taskCreate k call.arg1.toInt call.arg2 (taskGetIndex (k.tasks t))).1.toNat)
      else none := if_pos hType
  rw [requestCreate]
  rcases Keeps.taskCreate hTracks.placed (hTracks.positive ht) call.arg1.toInt call.arg2
    (taskGetIndex (k.tasks t)) with
    ⟨hFail, hState⟩ | ⟨id, index, hRet, hId, hPos, hAbsent, hKeeps⟩
  · have hNot := Int.not_le.mpr hFail
    simp only [hNot, if_false, hState]
    rw [if_neg hNot] at hCreated
    exact hTracks.finishes hOnly ⟨hSend, hReceive, hReply, hExit, hCreated⟩ _
  · have hNat : (0 : Int) ≤ Int.ofNat id := Int.natCast_nonneg id
    have hNe : t ≠ index := by
      rintro rfl
      simp [ht] at hAbsent
    have hToNat : (Int.ofNat id).toNat = id := rfl
    rw [hRet, if_pos hNat, hToNat, hId] at hCreated
    simp only [hRet, hNat, if_true, hToNat, taskGetTDById_eq hId hPos]
    have hRunning : update place index .running t = .running := by rw [update_of_ne hNe, ht]
    have hSet := Keeps.taskSetRet hKeeps.placed hRunning (BitVec.ofNat 32 (taskGetIndexById id))
    have hNew := Keeps.queueNew hSet.placed
    have hOld := Keeps.queueTask (t := t) hNew.placed (by rw [update_of_ne hNe, ht])
    exact hTracks.parks_created hOnly hSend hReceive hReply hExit hCreated hNe
      (((hKeeps.trans hSet).trans hNew).trans hOld)

theorem Running.spawn (hRun : Running t k h) (hType : call.type = sysSpawn) :
    Parked (queueTask (requestSpawn k t call) t) (h.record k t (.request call)) := by
  obtain ⟨mail, place, hTracks, hOnly⟩ := hRun
  have ht : place t = .running := (hOnly t).mpr rfl
  have hSend : sendTarget call = none := sendTarget_of_ne (by rw [hType]; decide)
  have hReceive : call.type ≠ sysReceive := by rw [hType]; decide
  have hReply : replyTarget k t call = none := replyTarget_of_ne (by rw [hType]; decide)
  have hExit : call.type ≠ sysExit := by rw [hType]; decide
  have hCreated : createdTask k t call =
      (taskSpawn k call.arg1.toInt call.arg2 call.arg3 (taskGetIndex (k.tasks t))).1 := by
    rw [createdTask, if_neg (by rw [hType]; decide), if_pos hType]
  rw [requestSpawn]
  rw [taskSpawn] at hCreated ⊢
  rcases Keeps.taskCreate hTracks.placed (hTracks.positive ht) call.arg1.toInt call.arg2
    (taskGetIndex (k.tasks t)) with
    ⟨hFail, hState⟩ | ⟨id, index, hRet, hId, hPos, hAbsent, hKeeps⟩
  · simp only [hFail, if_true, hState] at hCreated ⊢
    exact hTracks.finishes hOnly ⟨hSend, hReceive, hReply, hExit, hCreated⟩ _
  · have hNat : ¬Int.ofNat id < 0 := Int.not_lt.mpr (Int.natCast_nonneg id)
    have hNe : t ≠ index := by
      rintro rfl
      simp [ht] at hAbsent
    have hToNat : (Int.ofNat id).toNat = id := rfl
    simp only [hRet, hNat, if_false, hToNat, hId] at hCreated ⊢
    have hSet := Keeps.taskSetRet hKeeps.placed (update_self ..) call.arg3
    have hNew := Keeps.queueNew hSet.placed
    have hRunning : update place index .ready t = .running := by rw [update_of_ne hNe, ht]
    have hOld := Keeps.finish hNew.placed hRunning (BitVec.ofNat 32 (taskGetIndex ((queueTask
      (taskSetRet (taskCreate k call.arg1.toInt call.arg2 (taskGetIndex (k.tasks t))).2 index
        call.arg3) index).tasks index)))
    exact hTracks.parks_created hOnly hSend hReceive hReply hExit hCreated hNe
      (((hKeeps.trans hSet).trans hNew).trans hOld)

theorem Running.exit (hRun : Running t k h) (hType : call.type = sysExit) :
    Parked (taskExit k t) (h.record k t (.request call)) := by
  obtain ⟨mail, place, hTracks, hOnly⟩ := hRun
  have ht : place t = .running := (hOnly t).mpr rfl
  have hSend : sendTarget call = none := sendTarget_of_ne (by rw [hType]; decide)
  have hReceive : call.type ≠ sysReceive := by rw [hType]; decide
  have hReply : replyTarget k t call = none := replyTarget_of_ne (by rw [hType]; decide)
  have hRecord : h.record k t (.request call) =
      { h with turns := h.turns + 1, live := update h.live t false } := by
    have hExit : sysExit ≠ sysReceive := by decide
    simp [History.record, History.entries, hSend, hReply, hType, hExit]
  have hKeeps : Keeps k mail place (taskExit k t) (update place t .absent) := by
    refine ⟨hTracks.placed.taskExit ht, phase_update (by rw [ht]; rfl) rfl, ?_⟩
    intro x hx
    have hNe : x ≠ t := by
      rintro rfl
      exact hx (by rw [ht]; rfl)
    simp only [taskExit, State.card, State.modify, update_of_ne hNe]
  rw [hRecord]
  refine ⟨mail, _, hTracks.pass hKeeps rfl rfl rfl rfl ?_, parked_update hOnly (by simp)⟩
  intro x
  by_cases hx : x = t
  · subst hx
    simp
  · simp [hx, hTracks.live]

/-! ## Send -/

theorem phase_comp_update (place : TaskPtr → Place) (t : TaskPtr) (p : Place) :
    (fun x => (update place t p x).phase) = update (fun x => (place x).phase) t p.phase :=
  comp_update Place.phase place t p

theorem phase_update_ready (hr : place r = .running) (hsr : s ≠ r) (q : Phase TaskPtr) :
    update (update (fun x => (place x).phase) s q) r Place.ready.phase =
      update (fun x => (place x).phase) s q := by
  rw [update_eq_self_iff, update_of_ne hsr.symm, hr]
  rfl

theorem serial_comp_update (f : TaskPtr → Nat × Syscall) (t : TaskPtr) (v : Nat × Syscall) :
    (fun x => (update f t v x).1) = update (fun x => (f x).1) t v.1 :=
  comp_update Prod.fst f t v

theorem record_send (hType : call.type = sysSend)
    (hTarget : taskGetTDByIndex call.arg1.toInt = some r) : h.record k s (.request call) =
      { h with
        turns := h.turns + 1, lastSend := update h.lastSend s (h.turns, call)
        log := h.log ++ ⟨.sent, h.turns, s, r⟩ :: if (k.tasks r).status = .receiveBlock then
          [⟨.received, h.turns, s, r⟩] else [] } := by
  have hSend : sendTarget call = some r := (sendTarget_of_type hType).trans hTarget
  have hReceive : sysSend ≠ sysReceive := by decide
  have hExit : sysSend ≠ sysExit := by decide
  have hCreate : createdTask k s call = none :=
    createdTask_of_ne (by rw [hType]; decide) (by rw [hType]; decide)
  simp [History.record, History.entries, hSend, hType, hReceive, hExit, hCreate]

theorem Tracks.receiving_iff (hTracks : Tracks k mail place h) (r : TaskPtr) :
    (k.card r).status = .receiveBlock ↔ place r = .receiving := by
  rw [(hTracks.placed.fits r).status]
  cases place r <;> simp [Place.status]

theorem Tracks.replying_iff (hTracks : Tracks k mail place h) (s : TaskPtr) :
    (k.card s).status = .replyBlock ↔ ∃ r, place s = .replying r := by
  rw [(hTracks.placed.fits s).status]
  cases place s <;> simp [Place.status]

theorem Tracks.receiveFirst (hTracks : Tracks k mail place h) (hs : place s = .running)
    (hr : place r = .receiving) (hType : call.type = sysSend)
    (hTarget : taskGetTDByIndex call.arg1.toInt = some r) :
    Tracks (handleSend k s call) mail (update (update place s (.replying r)) r .ready)
      (h.record k s (.request call)) := by
  have hsr : s ≠ r := by
    rintro rfl
    simp [hr] at hs
  have hStatus : (k.tasks r).status = .receiveBlock := (hTracks.receiving_iff r).mpr hr
  obtain ⟨hPlaced, hCard, -⟩ := hTracks.placed.handleSend_receiveFirst hs hr hTarget
  rw [record_send hType hTarget, if_pos hStatus]
  refine ⟨hPlaced, ?_, ?_, ?_⟩
  · have hStep := Step.receiveFirst (e := exchange h mail place) (s := s) (r := r)
      (congrArg Place.phase hs) (congrArg Place.phase hr)
    rw [exchange, phase_comp_update, phase_comp_update, serial_comp_update]
    exact hTracks.protocol.step hStep
  · intro x
    rw [hCard]
    by_cases hxr : x = r
    · subst hxr
      simp only [update_self]
      trivial
    · rw [update_of_ne hxr, update_of_ne hxr]
      by_cases hxs : x = s
      · subst hxs
        simp only [update_self]
        exact ⟨(sendTarget_of_type hType).trans hTarget, rfl, rfl⟩
      · simp only [update_of_ne hxs]
        exact hTracks.holds x
  · have hs' : place s ≠ .absent := by simp [hs]
    have hr' : update place s (.replying r) r ≠ .absent := by
      rw [update_of_ne hsr.symm, hr]
      simp
    exact live_update (live_update hTracks.live hs' (by simp)) hr' (by simp)

theorem Tracks.sendFirst (hTracks : Tracks k mail place h) (hs : place s = .running)
    (hr : place r ≠ .receiving) (hType : call.type = sysSend)
    (hTarget : taskGetTDByIndex call.arg1.toInt = some r) :
    Tracks (handleSend k s call) (update mail r (mail r ++ [s])) (update place s (.sending r))
      (h.record k s (.request call)) := by
  have hStatus : (k.tasks r).status ≠ .receiveBlock := fun hStatus =>
    hr ((hTracks.receiving_iff r).mp hStatus)
  obtain ⟨hPlaced, hCard⟩ := hTracks.placed.handleSend_sendFirst hs hr hTarget
  rw [record_send hType hTarget, if_neg hStatus]
  refine ⟨hPlaced, ?_, ?_, ?_⟩
  · have hStep := Step.sendFirst (e := exchange h mail place) (s := s) (r := r)
      (congrArg Place.phase hs) (by
        change (place r).phase ≠ _
        cases hp : place r <;> simp [hp, Place.phase] at hr ⊢)
    rw [exchange, phase_comp_update, serial_comp_update]
    exact hTracks.protocol.step hStep
  · intro x
    rw [hCard]
    by_cases hx : x = s
    · subst hx
      simp only [update_self]
      exact ⟨(sendTarget_of_type hType).trans hTarget, rfl, rfl, rfl, rfl⟩
    · simp only [update_of_ne hx]
      exact hTracks.holds x
  · exact live_update hTracks.live (by simp [hs]) (by simp)

theorem Running.send (hRun : Running s k h) (hType : call.type = sysSend) :
    Parked (handleSend k s call) (h.record k s (.request call)) := by
  obtain ⟨mail, place, hTracks, hOnly⟩ := hRun
  have hs : place s = .running := (hOnly s).mpr rfl
  cases hTarget : taskGetTDByIndex call.arg1.toInt with
  | none =>
    have hInvalid : isValidTaskIndex call.arg1.toInt = false := by
      rw [← Bool.not_eq_true, ← taskGetTDByIndex_isSome, hTarget]
      simp
    have hQuiet : Quiet k s call := by
      refine ⟨(sendTarget_of_type hType).trans hTarget, ?_, replyTarget_of_ne ?_, ?_,
        createdTask_of_ne ?_ ?_⟩ <;> rw [hType] <;> decide
    rw [handleSend_invalid hInvalid]
    exact hTracks.finishes hOnly hQuiet (-1)
  | some r =>
    by_cases hr : place r = .receiving
    · have hsr : r ≠ s := by
        rintro rfl
        simp [hr] at hs
      refine ⟨_, _, hTracks.receiveFirst hs hr hType hTarget, fun x => ?_⟩
      by_cases hx : x = r
      · subst hx
        simp
      · rw [update_of_ne hx]
        exact parked_update (p := .replying r) hOnly (by simp) x
    · exact ⟨_, _, hTracks.sendFirst hs hr hType hTarget, parked_update hOnly (by simp)⟩

theorem record_receive (hType : call.type = sysReceive) {head : Option TaskPtr}
    (hHead : (k.sendQueues (taskGetIndex (k.tasks r))).head = head) :
    h.record k r (.request call) =
      { h with
        turns := h.turns + 1, lastReceive := update h.lastReceive r call
        log := h.log ++ (head.map fun s => ⟨.received, (h.lastSend s).1, s, r⟩).toList } := by
  have hSend : sendTarget call = none := sendTarget_of_ne (by rw [hType]; decide)
  have hExit : sysReceive ≠ sysExit := by decide
  have hCreate : createdTask k r call = none :=
    createdTask_of_ne (by rw [hType]; decide) (by rw [hType]; decide)
  cases head <;>
    simp [History.record, History.entries, hSend, hType, hExit, hCreate, hHead]

theorem Tracks.head (hTracks : Tracks k mail place h) (hr : place r = .running) :
    (k.sendQueues (taskGetIndex (k.tasks r))).head = (mail r).head? := by
  have hIndex : taskGetIndex (k.tasks r) = r := hTracks.placed.index (by simp [hr])
  rw [hIndex, hTracks.placed.head]

theorem Tracks.wait (hTracks : Tracks k mail place h) (hr : place r = .running)
    (hMail : mail r = []) (hType : call.type = sysReceive) :
    Tracks (handleReceive k r call) mail (update place r .receiving)
      (h.record k r (.request call)) := by
  obtain ⟨hPlaced, hCard⟩ := hTracks.placed.handleReceive_empty call hr hMail
  have hHead := hTracks.head hr
  rw [hMail] at hHead
  rw [record_receive hType hHead]
  simp only [List.head?_nil, Option.map_none, Option.toList_none, List.append_nil]
  refine ⟨hPlaced, ?_, ?_, live_update hTracks.live (by simp [hr]) (by simp)⟩
  · have hStep := Step.wait (e := exchange h mail place) (congrArg Place.phase hr) hMail
    rw [exchange, phase_comp_update]
    exact hTracks.protocol.step hStep
  · intro x
    rw [hCard]
    by_cases hx : x = r
    · subst hx
      simp only [update_self]
      exact ⟨hType, rfl, rfl, rfl⟩
    · simp only [update_of_ne hx]
      exact hTracks.holds x

theorem Tracks.collect {l : List TaskPtr} (hTracks : Tracks k mail place h)
    (hr : place r = .running) (hMail : mail r = s :: l) (hType : call.type = sysReceive) :
    Tracks (handleReceive k r call) (update mail r l)
      (update (update place s (.replying r)) r .ready) (h.record k r (.request call)) := by
  obtain ⟨hPlaced, hCard, -⟩ := hTracks.placed.handleReceive_queued call hr hMail
  have hHead := hTracks.head hr
  rw [hMail] at hHead
  have hs : place s = .sending r := (hTracks.placed.mem_mail_iff s r).mp (by simp [hMail])
  have hsr : s ≠ r := by
    rintro rfl
    simp [hs] at hr
  rw [record_receive hType hHead]
  refine ⟨hPlaced, ?_, ?_, ?_⟩
  · have hStep := Step.collect (e := exchange h mail place) (congrArg Place.phase hr) hMail
    rw [exchange, phase_comp_update, phase_comp_update, phase_update_ready hr hsr]
    exact hTracks.protocol.step hStep
  · intro x
    rw [hCard]
    by_cases hxr : x = r
    · subst hxr
      simp only [update_self]
      trivial
    · simp only [update_of_ne hxr]
      by_cases hxs : x = s
      · subst hxs
        have hHolds := hTracks.holds x
        rw [hs] at hHolds
        simp only [update_self]
        exact ⟨hHolds.1, hHolds.2.2.2.1, hHolds.2.2.2.2⟩
      · simp only [update_of_ne hxs]
        exact hTracks.holds x
  · have hr' : update place s (.replying r) r ≠ .absent := by
      rw [update_of_ne hsr.symm, hr]
      simp
    exact live_update (live_update hTracks.live (by simp [hs]) (by simp)) hr' (by simp)

theorem parked_update₂ {p' : Place} (hOnly : ∀ x, place x = .running ↔ x = t) (hp : p ≠ .running)
    (hp' : p' ≠ .running) (x : TaskPtr) : update (update place s p) t p' x ≠ .running := by
  by_cases hxt : x = t
  · subst hxt
    rwa [update_self]
  · rw [update_of_ne hxt]
    by_cases hxs : x = s
    · subst hxs
      rwa [update_self]
    · rw [update_of_ne hxs]
      exact fun hRun => hxt ((hOnly x).mp hRun)

theorem Running.receive (hRun : Running r k h) (hType : call.type = sysReceive) :
    Parked (handleReceive k r call) (h.record k r (.request call)) := by
  obtain ⟨mail, place, hTracks, hOnly⟩ := hRun
  have hr : place r = .running := (hOnly r).mpr rfl
  cases hMail : mail r with
  | nil => exact ⟨_, _, hTracks.wait hr hMail hType, parked_update hOnly (by simp)⟩
  | cons s l =>
    exact ⟨_, _, hTracks.collect hr hMail hType, parked_update₂ hOnly (by simp) (by simp)⟩

/-! ## Reply -/

theorem replyTarget_of_type (hType : call.type = sysReply) : replyTarget k r call =
    (taskGetTDByIndex call.arg1.toInt).filter fun s => (k.tasks s).status = .replyBlock ∧
      (k.tasks s).originalReceiverId = taskGetIndex (k.tasks r) := if_pos hType

theorem record_reply (hType : call.type = sysReply) (hTarget : replyTarget k r call = some s) :
    h.record k r (.request call) =
      { h with
        turns := h.turns + 1, log := h.log ++ [⟨.answered, (h.lastSend s).1, s, r⟩] } := by
  have hSend : sendTarget call = none := sendTarget_of_ne (by rw [hType]; decide)
  have hReceive : sysReply ≠ sysReceive := by decide
  have hExit : sysReply ≠ sysExit := by decide
  have hCreate : createdTask k r call = none :=
    createdTask_of_ne (by rw [hType]; decide) (by rw [hType]; decide)
  simp [History.record, History.entries, hSend, hType, hExit, hCreate, hTarget, hReceive]

theorem Tracks.answer (hTracks : Tracks k mail place h) (hr : place r = .running)
    (hs : place s = .replying r) (hType : call.type = sysReply)
    (hTarget : taskGetTDByIndex call.arg1.toInt = some s) :
    Tracks (handleReply k r call) mail (update (update place s .ready) r .ready)
      (h.record k r (.request call)) := by
  have hsr : s ≠ r := by
    rintro rfl
    simp [hs] at hr
  obtain ⟨hPlaced, hCard, -⟩ := hTracks.placed.handleReply_answers hr hs hTarget
  have hStatus : (k.tasks s).status = .replyBlock := (hTracks.replying_iff s).mpr ⟨r, hs⟩
  have hOrigin : (k.tasks s).originalReceiverId = taskGetIndex (k.tasks r) := by
    have hIndex : taskGetIndex (k.tasks r) = r := hTracks.placed.index (by simp [hr])
    rw [hIndex]
    exact (hTracks.placed.fits s).origin r hs
  have hReply : replyTarget k r call = some s := by
    rw [replyTarget_of_type hType, hTarget]
    simp [hStatus, hOrigin]
  rw [record_reply hType hReply]
  refine ⟨hPlaced, ?_, ?_, ?_⟩
  · have hStep := Step.answer (e := exchange h mail place) (congrArg Place.phase hr)
      (congrArg Place.phase hs)
    rw [exchange, phase_comp_update, phase_comp_update, phase_update_ready hr hsr]
    exact hTracks.protocol.step hStep
  · intro x
    rw [hCard]
    by_cases hxs : x = s
    · subst hxs
      simp only [update_of_ne hsr, update_self]
      trivial
    · by_cases hxr : x = r
      · subst hxr
        simp only [update_self]
        trivial
      · simp only [update_of_ne hxs, update_of_ne hxr]
        exact hTracks.holds x
  · have hr' : update place s .ready r ≠ .absent := by
      rw [update_of_ne hsr.symm, hr]
      simp
    exact live_update (live_update hTracks.live (by simp [hs]) (by simp)) hr' (by simp)

theorem Tracks.reply_cases (hTracks : Tracks k mail place h) (hr : place r = .running)
    (hType : call.type = sysReply) :
    (∃ s, taskGetTDByIndex call.arg1.toInt = some s ∧ place s = .replying r ∧
      replyTarget k r call = some s) ∨
    (replyTarget k r call = none ∧
      ∃ ret, (ret = -1 ∨ ret = -3 ∨ ret = -5) ∧ handleReply k r call = finish k r ret) := by
  have hIndex : taskGetIndex (k.tasks r) = r := hTracks.placed.index (by simp [hr])
  have hReply := replyTarget_of_type (k := k) (r := r) hType
  cases hTarget : taskGetTDByIndex call.arg1.toInt with
  | none =>
    rw [hTarget] at hReply
    have hInvalid : isValidTaskIndex call.arg1.toInt = false := by
      rw [← Bool.not_eq_true, ← taskGetTDByIndex_isSome, hTarget]
      simp
    exact Or.inr ⟨hReply, -1, Or.inl rfl, handleReply_invalid hInvalid⟩
  | some s =>
    rw [hTarget] at hReply
    by_cases hStatus : (k.tasks s).status = .replyBlock
    · by_cases hOrigin : (k.tasks s).originalReceiverId = taskGetIndex (k.tasks r)
      · obtain ⟨r', hs⟩ := (hTracks.replying_iff s).mp hStatus
        have hr' : r' = r := by
          have hOrigin' := (hTracks.placed.fits s).origin r' hs
          rw [hIndex] at hOrigin
          have hEq : ((r'.val : Nat) : Int) = r.val := hOrigin'.symm.trans hOrigin
          exact Fin.ext (by exact_mod_cast hEq)
        subst hr'
        refine Or.inl ⟨s, rfl, hs, ?_⟩
        rw [hReply]
        simp [hStatus, hOrigin]
      · refine Or.inr ⟨?_, -5, Or.inr (Or.inr rfl), handleReply_notReceiver hTarget hStatus hOrigin⟩
        rw [hReply]
        simp [hOrigin]
    · refine Or.inr ⟨?_, -3, Or.inr (Or.inl rfl), handleReply_notBlocked hTarget hStatus⟩
      rw [hReply]
      simp [hStatus]

theorem Running.reply (hRun : Running r k h) (hType : call.type = sysReply) :
    Parked (handleReply k r call) (h.record k r (.request call)) := by
  obtain ⟨mail, place, hTracks, hOnly⟩ := hRun
  have hr : place r = .running := (hOnly r).mpr rfl
  rcases hTracks.reply_cases hr hType with ⟨s, hTarget, hs, -⟩ | ⟨hNone, ret, -, hEq⟩
  · exact ⟨_, _, hTracks.answer hr hs hType hTarget, parked_update₂ hOnly (by simp) (by simp)⟩
  · have hQuiet : Quiet k r call := by
      refine ⟨sendTarget_of_ne ?_, ?_, hNone, ?_, createdTask_of_ne ?_ ?_⟩ <;>
        rw [hType] <;> decide
    rw [hEq]
    exact hTracks.finishes hOnly hQuiet ret

theorem Running.handleRequest {trap : Trap} (hRun : Running t k h) (hAllowed : Allowed k trap)
    (hHandle : handleRequest k t trap = some k') : Parked k' (h.record k t trap) := by
  cases trap with
  | interrupt hw =>
    rw [Kernel.handleRequest, Option.map_eq_some_iff] at hHandle
    obtain ⟨k₁, hInterrupt, rfl⟩ := hHandle
    exact hRun.interrupt hInterrupt
  | request call =>
    by_cases hAwait : call.type = sysAwaitEvent
    · exact hRun.awaitEvent hAwait hAllowed hHandle
    rw [Kernel.handleRequest, if_neg hAwait] at hHandle
    by_cases hSend : call.type = sysSend
    · rw [if_pos hSend, Option.some.injEq] at hHandle
      exact hHandle ▸ hRun.send hSend
    rw [if_neg hSend] at hHandle
    by_cases hReceive : call.type = sysReceive
    · rw [if_pos hReceive, Option.some.injEq] at hHandle
      exact hHandle ▸ hRun.receive hReceive
    rw [if_neg hReceive] at hHandle
    by_cases hReply : call.type = sysReply
    · rw [if_pos hReply, Option.some.injEq] at hHandle
      exact hHandle ▸ hRun.reply hReply
    rw [if_neg hReply] at hHandle
    by_cases hCreate : call.type = sysCreate
    · rw [if_pos hCreate, Option.some.injEq] at hHandle
      exact hHandle ▸ hRun.create hCreate
    rw [if_neg hCreate] at hHandle
    by_cases hSpawn : call.type = sysSpawn
    · rw [if_pos hSpawn, Option.some.injEq] at hHandle
      exact hHandle ▸ hRun.spawn hSpawn
    rw [if_neg hSpawn] at hHandle
    by_cases hExit : call.type = sysExit
    · have hTid : call.type ≠ sysMyTid := by rw [hExit]; decide
      have hParent : call.type ≠ sysMyParentTid := by rw [hExit]; decide
      have hPass : call.type ≠ sysPass := by rw [hExit]; decide
      rw [if_neg hTid, if_neg hParent, if_neg hPass, if_pos hExit, Option.some.injEq] at hHandle
      exact hHandle ▸ hRun.exit hExit
    -- what is left returns a number or nothing, and requeues the task
    have hQuiet : Quiet k t call := .of_type hSend hReceive hReply hExit hCreate hSpawn
    obtain ⟨mail, place, hTracks, hOnly⟩ := hRun
    rw [if_neg hExit] at hHandle
    split at hHandle
    · cases hHandle
      exact hTracks.finishes hOnly hQuiet _
    split at hHandle
    · cases hHandle
      exact hTracks.finishes hOnly hQuiet _
    split at hHandle
    · cases hHandle
      exact hTracks.requeues hOnly hQuiet
    split at hHandle
    · cases hHandle
    · cases hHandle
      exact hTracks.requeues hOnly hQuiet

end TrainKernel.Kernel
