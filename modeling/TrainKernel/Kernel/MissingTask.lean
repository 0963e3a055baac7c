import TrainKernel.Kernel.MessageDelivery

/-!
# Calls to tasks that do not exist

A table entry is found for every valid index, whether a task lives there or not. A Send to an
empty entry waits in its send queue, and a Reply to it looks like one to a task that waits for
no reply.
-/

namespace TrainKernel.Kernel

open Function

variable {k k' : State} {mail : TaskPtr → List TaskPtr} {place : TaskPtr → Place}
variable {h : History} {s t : TaskPtr} {call : Syscall}

/-- What the two handlers announce for a task that does not exist. -/
structure ReportsMissing (k k' : State) (caller : TaskPtr) : Prop where
  ret : (k'.tasks caller).ret = -2
  ready : (k'.tasks caller).status = .ready
  sendQueues : k'.sendQueues = k.sendQueues

structure WaitsFor (k' : State) (caller t : TaskPtr) : Prop where
  blocked : (k'.tasks caller).status = .sendBlock
  queued : (k'.sendQueues t).tail = some caller

theorem Tracks.send_missing (hTracks : Tracks k mail place h) (hs : place s = .running)
    (hAbsent : place t = .absent) (hTarget : taskGetTDByIndex call.arg1.toInt = some t) :
    WaitsFor (handleSend k s call) s t := by
  obtain ⟨⟨lists, hMail, hPlaced⟩, hCard⟩ := hTracks.placed.handleSend_sendFirst hs
    (by rw [hAbsent]; simp) hTarget
  constructor
  · have hSender := congrFun hCard s
    rw [update_self] at hSender
    exact (congrArg TaskDescriptor.status hSender :)
  · have hTail := (hPlaced.linked.family.represents (.mail t)).tail
    rw [hMail, update_self, List.getLast?_append] at hTail
    exact hTail

theorem Tracks.reply_missing (hTracks : Tracks k mail place h) (hs : place s = .running)
    (hAbsent : place t = .absent) (hTarget : taskGetTDByIndex call.arg1.toInt = some t) :
    Refused k (handleReply k s call) s (-3) := by
  rw [handleReply_notBlocked hTarget]
  · exact hTracks.refuses hs (-3)
  · rw [(hTracks.placed.fits t).status, hAbsent]
    simp [Place.status]

/-- No call to a missing task is reported: a Send blocks its caller, and a Reply returns -3. -/
theorem missing_never_reported (hReach : Reaches (some s) k h) (hDead : h.live t = false)
    (hTarget : taskGetTDByIndex call.arg1.toInt = some t) :
    (call.type = sysSend → handleRequest k s (.request call) = some k' →
      ¬ReportsMissing k k' s ∧ WaitsFor k' s t) ∧
    (call.type = sysReply → handleRequest k s (.request call) = some k' →
      ¬ReportsMissing k k' s ∧ Refused k k' s (-3)) := by
  obtain ⟨mail, place, hTracks, hRunning⟩ := hReach.tracked
  have hs : place s = .running := (hRunning s).mpr rfl
  have hAbsent : place t = .absent := by
    by_contra hLive
    rw [(hTracks.live t).mpr hLive] at hDead
    cases hDead
  constructor
  · intro hType hHandle
    rw [handleRequest_send hType] at hHandle
    obtain rfl := Option.some.inj hHandle
    have hWaits := hTracks.send_missing hs hAbsent hTarget
    refine ⟨?_, hWaits⟩
    rintro ⟨-, hReady, -⟩
    rw [hWaits.blocked] at hReady
    cases hReady
  · intro hType hHandle
    rw [handleRequest_reply hType] at hHandle
    obtain rfl := Option.some.inj hHandle
    have hRefused := hTracks.reply_missing hs hAbsent hTarget
    refine ⟨?_, hRefused⟩
    rintro ⟨hRet, -, -⟩
    have hCaller : ((handleReply k s call).tasks s).ret = -3 :=
      congrArg TaskDescriptor.ret hRefused.caller
    rw [hCaller] at hRet
    exact absurd hRet (by decide)

/-- The first task sends to an index that no task has been given. -/
theorem missing_never_reported_example : ∃ k k', ¬ReportsMissing k k' 1 ∧ WaitsFor k' 1 5 := by
  have hStart := Reaches.start (fun _ => 0) 0 0 (by decide : (1 : Word) ≠ 0)
  have hFirst := hStart.dispatch (rfl : dispatch _ ⟨.request { type := 0 }, fun _ => 0, 0⟩ = _)
  have hTarget : taskGetTDByIndex (Syscall.mk sysSend 5 0 0 0 0).arg1.toInt = some 5 := rfl
  exact ⟨_, _, (missing_never_reported (t := 5) hFirst rfl hTarget).1 rfl rfl⟩

theorem missing_not_reported : ¬∀ k h s t call k', Reaches (some s) k h → h.live t = false →
    taskGetTDByIndex call.arg1.toInt = some t → call.type = sysSend ∨ call.type = sysReply →
    handleRequest k s (.request call) = some k' → ReportsMissing k k' s := by
  intro hReports
  have hStart := Reaches.start (fun _ => 0) 0 0 (by decide : (1 : Word) ≠ 0)
  have hFirst := hStart.dispatch (rfl : dispatch _ ⟨.request { type := 0 }, fun _ => 0, 0⟩ = _)
  have hReady := (hReports _ _ 1 5 { type := sysSend, arg1 := 5 } _ hFirst rfl rfl (Or.inl rfl)
    rfl).ready
  exact absurd hReady (by decide)

end TrainKernel.Kernel
