import TrainKernel.User.InputStream
import TrainKernel.User.OutputStream

/-!
# The echo

A courier takes what is typed from the server of the one direction to that of the other. It has
one character at a time: what is typed while it is on its way is not echoed.
-/

namespace TrainKernel.User

open Library.Runs

/-- Where the courier is between its two `Send`s. -/
inductive EchoCourier where
  | asks
  | waits
  | brings (data : BitVec 32)
deriving DecidableEq

structure EchoLine where
  inServer : InServer
  courier : EchoCourier
  outServer : OutServer

/-- A message of another task to one of the servers, or of the courier. -/
inductive EchoEvent where
  | receive (tid : Nat) (req : IOReq)
  | send (tid : Nat) (req : IOReq)
  | ask
  | bring (data : BitVec 32)

abbrev EchoHistory := History EchoEvent (List IOOutput)

/-- What is handed to the courier. -/
def IOOutput.handed (courierTid : Nat) : IOOutput → List (BitVec 32)
  | .replyData tid data => if tid = courierTid then [data] else []
  | _ => []

def handedIn (courierTid : Nat) (out : List IOOutput) : List (BitVec 32) :=
  out.flatMap (IOOutput.handed courierTid)

namespace EchoCourier

def held : EchoCourier → List (BitVec 32)
  | brings data => [data]
  | _ => []

/-- A reply reaches the courier only while it waits. -/
def hear (courierTid : Nat) : EchoCourier → List IOOutput → EchoCourier
  | waits, out => match handedIn courierTid out with
    | data :: _ => brings data
    | [] => waits
  | courier, _ => courier

end EchoCourier

namespace EchoEvent

/-- The messages to the server of what comes in. -/
def toIn (courierTid : Nat) : EchoEvent → List (Nat × IOReq)
  | receive tid req => [(tid, req)]
  | ask => [(courierTid, .echo)]
  | _ => []

/-- The messages to the server of what goes out. -/
def toOut (courierTid : Nat) : EchoEvent → List (Nat × IOReq)
  | send tid req => [(tid, req)]
  | bring data => [(courierTid, .putChar data)]
  | _ => []

def echoed : EchoEvent → List (BitVec 32)
  | bring data => [data]
  | _ => []

def typed : EchoEvent → List (BitVec 32)
  | receive _ (.notification data) => [data]
  | _ => []

end EchoEvent

/-- Only the courier asks for an echo, and the servers reply to it at once. -/
inductive EchoLine.Step (notifierTid courierTid : Nat) :
    EchoLine → EchoEvent → EchoLine → List IOOutput → Prop
  | receive {s : EchoLine} {tid : Nat} {req : IOReq} {inServer : InServer} {out : List IOOutput}
      (hReq : req ≠ .echo) (hServe : monitorInServer s.inServer tid req = some (inServer, out)) :
      Step notifierTid courierTid s (.receive tid req)
        ⟨inServer, s.courier.hear courierTid out, s.outServer⟩ out
  | send {s : EchoLine} {tid : Nat} {req : IOReq} {outServer : OutServer} {out : List IOOutput}
      (hServe : monitorOutServer notifierTid s.outServer tid req = some (outServer, out)) :
      Step notifierTid courierTid s (.send tid req) { s with outServer } out
  | ask {s : EchoLine} {inServer : InServer} {out : List IOOutput} (hAsks : s.courier = .asks)
      (hServe : monitorInServer s.inServer courierTid .echo = some (inServer, out)) :
      Step notifierTid courierTid s .ask ⟨inServer, .waits, s.outServer⟩ out
  | bring {s : EchoLine} {data : BitVec 32} {outServer : OutServer} {out : List IOOutput}
      (hBrings : s.courier = .brings data)
      (hServe : monitorOutServer notifierTid s.outServer courierTid (.putChar data) =
        some (outServer, out)) :
      Step notifierTid courierTid s (.bring data) ⟨s.inServer, .asks, outServer⟩ out

def echoLine (notifierTid courierTid : Nat) (taskb inChars outChars : Nat → Byte) :
    Machine EchoLine EchoEvent (List IOOutput) where
  start := ⟨initInServer taskb inChars monitorBufferSize, .asks,
    initOutServer outChars monitorBufferSize⟩
  step := EchoLine.Step notifierTid courierTid

namespace EchoHistory

def inRounds (courierTid : Nat) (h : EchoHistory) : IOHistory :=
  h.flatMap fun round => (round.1.toIn courierTid).map fun i => (i, round.2)

def outRounds (courierTid : Nat) (h : EchoHistory) : IOHistory :=
  h.flatMap fun round => (round.1.toOut courierTid).map fun i => (i, round.2)

def echoed (h : EchoHistory) : List (BitVec 32) := h.flatMap (·.1.echoed)

def typed (h : EchoHistory) : List (BitVec 32) := h.flatMap (·.1.typed)

end EchoHistory

/-- The conditions of the two servers. -/
def OnEchoLine (notifierTid courierTid : Nat) (register : BitVec 32) (tasks : Finset Nat)
    (h : EchoHistory) (s : EchoLine) (e : EchoEvent) : Prop :=
  (∀ i ∈ e.toIn courierTid,
    AsksIn .monitor tasks (EchoHistory.inRounds courierTid h) s.inServer i) ∧
  ∀ i ∈ e.toOut courierTid,
    SendsOut .monitor notifierTid register (EchoHistory.outRounds courierTid h) s.outServer i

section Runs

variable {notifierTid courierTid : Nat} {taskb inChars outChars : Nat → Byte}
variable {register : BitVec 32} {tasks : Finset Nat} {h : EchoHistory} {s s' : EchoLine}

theorem echoLine_in_run
    (hRun : (echoLine notifierTid courierTid taskb inChars outChars).Run
      (OnEchoLine notifierTid courierTid register tasks) h s) :
    (inMachine .monitor taskb inChars).Run (AsksIn .monitor tasks)
      (EchoHistory.inRounds courierTid h) s.inServer := by
  refine hRun.project EchoLine.inServer _ rfl ?_
  rintro h s e s' out ⟨hIn, -⟩ hStep
  cases hStep with
  | receive hReq hServe => exact .inr ⟨_, _, rfl, hIn _ (.head _), hServe⟩
  | send hServe => exact .inl ⟨rfl, rfl⟩
  | ask hAsks hServe => exact .inr ⟨_, _, rfl, hIn _ (.head _), hServe⟩
  | bring hBrings hServe => exact .inl ⟨rfl, rfl⟩

theorem echoLine_out_run
    (hRun : (echoLine notifierTid courierTid taskb inChars outChars).Run
      (OnEchoLine notifierTid courierTid register tasks) h s) :
    (outMachine .monitor notifierTid outChars).Run (SendsOut .monitor notifierTid register)
      (EchoHistory.outRounds courierTid h) s.outServer := by
  refine hRun.project EchoLine.outServer _ rfl ?_
  rintro h s e s' out ⟨-, hOut⟩ hStep
  cases hStep with
  | receive hReq hServe => exact .inl ⟨rfl, rfl⟩
  | send hServe => exact .inr ⟨_, _, rfl, hOut _ (.head _), hServe⟩
  | ask hAsks hServe => exact .inl ⟨rfl, rfl⟩
  | bring hBrings hServe => exact .inr ⟨_, _, rfl, hOut _ (.head _), hServe⟩

/-- The server knows whether the courier waits, and what was echoed or is on its way was typed in
this order. -/
structure EchoLine.Sound (courierTid : Nat) (h : EchoHistory) (s : EchoLine) : Prop where
  waits : s.courier = .waits → s.inServer.courierTid = courierTid
  away : s.courier ≠ .waits → s.inServer.courierTid = 0
  sublist : (h.echoed ++ s.courier.held).Sublist h.typed

variable {t tid : Nat} {c : Byte} {i i' : InServer} {req : IOReq} {out : List IOOutput}
variable {data : BitVec 32}

theorem giveChar_courier (i : InServer) (c : Byte) :
    (giveChar i c).1.courierTid = i.courierTid ∧ handedIn t (giveChar i c).2 = [] := by
  rw [giveChar]
  split_ifs <;> exact ⟨rfl, rfl⟩

theorem takeChar_courier (i : InServer) (tid : Nat) :
    (takeChar i tid).1.courierTid = i.courierTid ∧ handedIn t (takeChar i tid).2 = [] := by
  rw [takeChar]
  split_ifs <;> exact ⟨rfl, rfl⟩

/-- The courier that waits is handed the character, and is not waited for any more. -/
theorem notification_courier
    (hServe : monitorInServer i tid (.notification data) = some (i', out)) :
    i'.courierTid = 0 ∧
      handedIn t out = if i.courierTid ≠ 0 ∧ i.courierTid = t then [data] else [] := by
  have hEq : monitorInServer i tid (.notification data) =
      some ((giveChar { i with courierTid := 0 } (charOfData data)).1, .reply tid ::
        (if i.courierTid ≠ 0 then [.replyData i.courierTid data] else []) ++
          (giveChar { i with courierTid := 0 } (charOfData data)).2) := rfl
  obtain ⟨hFree, hGiven⟩ :=
    giveChar_courier (t := t) { i with courierTid := 0 } (charOfData data)
  rw [handedIn] at hGiven
  obtain ⟨rfl, rfl⟩ := Prod.mk.inj (Option.some.inj (hEq.symm.trans hServe))
  refine ⟨hFree, ?_⟩
  rw [handedIn, List.flatMap_append, hGiven, List.append_nil]
  change (if i.courierTid ≠ 0 then [IOOutput.replyData i.courierTid data] else []).flatMap _ = _
  split_ifs with hZero hBoth hBoth
  · simp [IOOutput.handed, hBoth.2]
  · have hOther : ¬i.courierTid = t := fun hSame => hBoth ⟨hZero, hSame⟩
    simp [IOOutput.handed, hOther]
  · exact absurd hBoth.1 hZero
  · rfl

theorem getChar_courier (hServe : monitorInServer i tid .getChar = some (i', out)) :
    i'.courierTid = i.courierTid ∧ handedIn t out = [] := by
  obtain ⟨rfl, rfl⟩ := Prod.mk.inj (Option.some.inj hServe)
  exact takeChar_courier i tid

namespace EchoLine

/-- What is typed goes to the courier if it waits, and passes it by otherwise. -/
theorem Sound.hears (hCourier : courierTid ≠ 0) (hSound : s.Sound courierTid h)
    (hServe : monitorInServer s.inServer tid (.notification data) = some (i', out)) :
    (s.courier = .waits ∧ s.courier.hear courierTid out = .brings data) ∨
      (s.courier ≠ .waits ∧ s.courier.hear courierTid out = s.courier) := by
  obtain ⟨-, hHanded⟩ := notification_courier (t := courierTid) hServe
  cases hState : s.courier with
  | asks => exact .inr ⟨nofun, rfl⟩
  | brings data' => exact .inr ⟨nofun, rfl⟩
  | waits =>
    have hWaits := hSound.waits hState
    rw [if_pos ⟨hWaits.trans_ne hCourier, hWaits⟩] at hHanded
    refine .inl ⟨rfl, ?_⟩
    rw [EchoCourier.hear, hHanded]

theorem Sound.step (hCourier : courierTid ≠ 0) (hSound : s.Sound courierTid h) {e : EchoEvent}
    (hStep : Step notifierTid courierTid s e s' out) : s'.Sound courierTid (h ++ [(e, out)]) := by
  have hEchoed : EchoHistory.echoed (h ++ [(e, out)]) = h.echoed ++ e.echoed := by
    rw [EchoHistory.echoed, List.flatMap_append, List.flatMap_singleton]
    rfl
  have hTyped : EchoHistory.typed (h ++ [(e, out)]) = h.typed ++ e.typed := by
    rw [EchoHistory.typed, List.flatMap_append, List.flatMap_singleton]
    rfl
  have hSublist := hSound.sublist
  cases hStep with
  | @receive tid req inServer _ hReq hServe =>
    cases req with
    | notification data =>
      obtain ⟨hFree, -⟩ := notification_courier (t := courierTid) hServe
      rcases hSound.hears hCourier hServe with ⟨hWaits, hBrings⟩ | ⟨hAway, hSame⟩
      · refine ⟨fun hStill => by simp [hBrings] at hStill, fun _ => hFree, ?_⟩
        rw [hEchoed, hTyped, hBrings]
        simpa [EchoEvent.echoed, EchoEvent.typed, EchoCourier.held, hWaits] using hSublist
      · rw [hSame]
        refine ⟨fun hWaits => absurd hWaits hAway, fun _ => hFree, ?_⟩
        rw [hEchoed, hTyped]
        simpa [EchoEvent.echoed] using hSublist.trans (List.sublist_append_left ..)
    | getChar =>
      obtain ⟨hKept, hNone⟩ := getChar_courier (t := courierTid) hServe
      have hSame : s.courier.hear courierTid out = s.courier := by
        cases s.courier <;> simp [EchoCourier.hear, hNone]
      rw [hSame]
      refine ⟨fun hWaits => hKept.trans (hSound.waits hWaits),
        fun hAway => hKept.trans (hSound.away hAway), ?_⟩
      rw [hEchoed, hTyped]
      simpa [EchoEvent.echoed, EchoEvent.typed] using hSublist
    | echo => exact absurd rfl hReq
    | putChar data => cases hServe
    | putStr str => cases hServe
    | putRawStr str => cases hServe
  | send hServe =>
    refine ⟨hSound.waits, hSound.away, ?_⟩
    rw [hEchoed, hTyped]
    simpa [EchoEvent.echoed, EchoEvent.typed] using hSublist
  | ask hAsks hServe =>
    obtain ⟨rfl, -⟩ := Prod.mk.inj (Option.some.inj hServe)
    refine ⟨fun _ => rfl, fun hAway => absurd rfl hAway, ?_⟩
    rw [hEchoed, hTyped]
    simpa [EchoEvent.echoed, EchoEvent.typed, EchoCourier.held, hAsks] using hSublist
  | @bring data outServer _ hBrings hServe =>
    have hAway : s.courier ≠ .waits := by simp [hBrings]
    refine ⟨nofun, fun _ => hSound.away hAway, ?_⟩
    rw [hEchoed, hTyped]
    simpa [EchoEvent.echoed, EchoEvent.typed, EchoCourier.held, hBrings] using hSublist

end EchoLine

theorem echoLine_run_sound (hCourier : courierTid ≠ 0)
    (hRun : (echoLine notifierTid courierTid taskb inChars outChars).Run
      (OnEchoLine notifierTid courierTid register tasks) h s) : s.Sound courierTid h := by
  refine hRun.invariant (EchoLine.Sound courierTid) ⟨nofun, fun _ => rfl, .refl _⟩ ?_
  intro h s e s' out hSound _ hStep
  exact hSound.step hCourier hStep

/-- The courier's characters are all that is sent if the other tasks send none. -/
theorem echoed_payloads (courierTid : Nat)
    (hAlone : ∀ round ∈ h, ∀ tid req, round.1 = .send tid req → req.payload = []) :
    (EchoHistory.outRounds courierTid h).payloads = h.echoed.map charOfData := by
  have hRound : ∀ round ∈ h, ((round.1.toOut courierTid).map fun i => (i, round.2)).flatMap
      (fun round => round.1.2.payload) = round.1.echoed.map charOfData := by
    rintro ⟨e, out⟩ hMem
    cases e with
    | send tid req =>
      have hNone := hAlone _ hMem tid req rfl
      simp [EchoEvent.toOut, EchoEvent.echoed, hNone]
    | bring data => simp [EchoEvent.toOut, EchoEvent.echoed, IOReq.payload]
    | receive tid req => rfl
    | ask => rfl
  rw [IOHistory.payloads, EchoHistory.outRounds, List.flatMap_assoc, EchoHistory.echoed,
    List.map_flatMap]
  exact List.flatMap_congr hRound

/-- What the courier brings has been typed in this order, and while it waits nothing that is typed
passes it by. The readers get every character all the same, and if nobody else writes then the
screen shows only what was typed. -/
theorem echo_in_order (hCourier : courierTid ≠ 0) (hTids : ∀ tid ∈ tasks, tid < 128)
    (hFew : tasks.card ≤ 127)
    (hRun : (echoLine notifierTid courierTid taskb inChars outChars).Run
      (OnEchoLine notifierTid courierTid register tasks) h s) :
    (h.echoed ++ s.courier.held).Sublist h.typed ∧
      (s.courier = .waits ↔ s.inServer.courierTid = courierTid) ∧
      (∀ tid data s' out, EchoLine.Step notifierTid courierTid s (.receive tid (.notification data))
        s' out → s'.courier = if s.courier = .waits then .brings data else s.courier) ∧
      (EchoHistory.inRounds courierTid h).given = (EchoHistory.inRounds courierTid h).asked.zip
        (EchoHistory.inRounds courierTid h).received ∧
      ((∀ round ∈ h, ∀ tid req, round.1 = .send tid req → req.payload = []) →
        ((EchoHistory.outRounds courierTid h).written register).Sublist
          (h.typed.map charOfData)) := by
  have hSound := echoLine_run_sound hCourier hRun
  obtain ⟨-, hConserves, -⟩ := out_run_sound (echoLine_out_run hRun)
  refine ⟨hSound.sublist, ⟨hSound.waits, fun hKnown => ?_⟩, fun tid data s' out hStep => ?_,
    (in_run_balanced hTids hFew (echoLine_in_run hRun)).given_eq, fun hAlone => ?_⟩
  · exact of_not_not fun hAway => hCourier (hKnown.symm.trans (hSound.away hAway))
  · cases hStep with
    | receive hReq hServe =>
      rcases hSound.hears hCourier hServe with ⟨hWaits, hBrings⟩ | ⟨hAway, hSame⟩
      · rw [if_pos hWaits]
        exact hBrings
      · rw [if_neg hAway]
        exact hSame
  · rw [echoed_payloads courierTid hAlone] at hConserves
    have hEchoed : (h.echoed.map charOfData).Sublist (h.typed.map charOfData) :=
      ((List.sublist_append_left ..).trans hSound.sublist).map charOfData
    refine .trans ?_ hEchoed
    rw [hConserves]
    exact List.sublist_append_left ..

end Runs

/-- Of two characters that come at once, the first is echoed. -/
theorem echo_in_order_two : ∃ h : EchoHistory, h.echoed = [104] ∧ h.typed = [104, 105] ∧
    ((EchoHistory.outRounds 3 h).written 0x808d0000).Sublist (h.typed.map charOfData) := by
  have hStart := @Machine.Run.start _ _ _ (echoLine 5 3 (fun _ => 0) (fun _ => 0) fun _ => 0)
    (OnEchoLine 5 3 0x808d0000 {7})
  have hReady := hStart.next (i := EchoEvent.send 5 (.notification 0x808d0000)) (o := [])
    ⟨List.forall_mem_nil _, List.forall_mem_singleton.mpr ⟨rfl, rfl⟩⟩
    (@EchoLine.Step.send 5 3 _ 5 _ _ _ rfl)
  have hAsked := hReady.next (i := EchoEvent.ask) (o := [])
    ⟨List.forall_mem_singleton.mpr rfl, List.forall_mem_nil _⟩
    (@EchoLine.Step.ask 5 3 _ _ _ rfl rfl)
  have hFirst := hAsked.next (i := EchoEvent.receive 6 (.notification 104)) (o := _)
    ⟨List.forall_mem_singleton.mpr fun _ => rfl, List.forall_mem_nil _⟩
    (@EchoLine.Step.receive 5 3 _ 6 _ _ _ nofun rfl)
  have hSecond := hFirst.next (i := EchoEvent.receive 6 (.notification 105)) (o := _)
    ⟨List.forall_mem_singleton.mpr fun _ => rfl, List.forall_mem_nil _⟩
    (@EchoLine.Step.receive 5 3 _ 6 _ _ _ nofun rfl)
  have hRun := hSecond.next (i := EchoEvent.bring 104) (o := _)
    ⟨List.forall_mem_nil _, List.forall_mem_singleton.mpr ⟨by decide, nofun⟩⟩
    (@EchoLine.Step.bring 5 3 _ _ _ _ rfl rfl)
  obtain ⟨-, -, -, -, hScreen⟩ := echo_in_order (by decide) (by decide) (by decide) hRun
  refine ⟨_, rfl, rfl, hScreen ?_⟩
  intro round hMem tid req hSend
  simp only [List.nil_append, List.mem_append, List.mem_singleton, or_assoc] at hMem
  obtain rfl | rfl | rfl | rfl | rfl := hMem <;> cases hSend
  rfl

end TrainKernel.User
