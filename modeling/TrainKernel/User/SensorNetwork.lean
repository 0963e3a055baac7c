import TrainKernel.User.SensorStandings

/-!
# The sensor network

Between the track and the engineers stand the sensor server and its couriers. The sensor courier of
each engineer takes his claims to the server, and the engineer courier takes every hit to the
engineer that it is attributed to. They all run on their own, and each waits for its replies.
-/

namespace TrainKernel.User

open Library.Runs

/-- Where the engineer courier is between its two `Send`s. -/
inductive EngineerCourier where
  | asks
  | waits
  | brings (delivery : SensorDelivery)

/-- What a sensor courier has to send: its first claim or a later one to the server, or a request
for the next claim to its engineer. -/
inductive SensorErrand where
  | starts (index : Int)
  | claims (claim : SensorClaim)
  | asks

structure SensorCourier where
  tid : Nat
  engineerTid : Nat
  errand : SensorErrand

structure SensorNetwork where
  server : SensorServer
  courier : EngineerCourier
  sensorCouriers : List SensorCourier

/-- An engineer spawns his sensor courier or hands it a claim, or a task has sent its message. -/
inductive NetworkEvent where
  | spawn (tid engineerTid : Nat) (index : Int)
  | hand (tid : Nat) (claim : SensorClaim)
  | claim (tid : Nat) (req : SensorRequest)
  | report (data : BitVec 8) (seq time : Nat)
  | ask
  | bring (delivery : SensorDelivery)

/-- What comes out is what comes out of the server. -/
abbrev NetworkHistory := History NetworkEvent (List SensorDelivery × List SensorOutput)

def SensorOutput.deliveredTo (courierTid : Nat) : SensorOutput → List SensorDelivery
  | .deliver tid delivery => if tid = courierTid then [delivery] else []
  | .reply _ => []

namespace EngineerCourier

def held : EngineerCourier → List SensorDelivery
  | brings delivery => [delivery]
  | _ => []

/-- A reply reaches the courier only while it waits. -/
def hear (courierTid : Nat) : EngineerCourier → List SensorOutput → EngineerCourier
  | waits, out => match out.flatMap (SensorOutput.deliveredTo courierTid) with
    | delivery :: _ => brings delivery
    | [] => waits
  | courier, _ => courier

end EngineerCourier

def SensorRequest.claims : SensorRequest → List SensorClaim
  | initialClaim index _ => [⟨index, -1⟩]
  | claimSensor claim => [claim]
  | _ => []

def SensorCourier.request (c : SensorCourier) : Option SensorRequest :=
  match c.errand with
  | .starts index => some (.initialClaim index c.engineerTid)
  | .claims claim => some (.claimSensor claim)
  | .asks => none

def SensorCourier.held (c : SensorCourier) : List SensorClaim :=
  c.request.toList.flatMap SensorRequest.claims

def redirect (tid : Nat) (errand : SensorErrand) (couriers : List SensorCourier) :
    List SensorCourier :=
  couriers.map fun c => if c.tid = tid then { c with errand } else c

/-- What `sensorCourier` asserts of its argument, and the parser checks before an engineer is
created. -/
def IsSensorIndex (index : Int) : Prop := 0 ≤ index ∧ index < 80

inductive SensorNetwork.Step (courierTid workerTid : Nat) : SensorNetwork → NetworkEvent →
    SensorNetwork → List SensorDelivery × List SensorOutput → Prop
  | spawn {s : SensorNetwork} {tid engineerTid : Nat} {index : Int}
      (hIndex : IsSensorIndex index) :
      Step courierTid workerTid s (.spawn tid engineerTid index)
        { s with sensorCouriers := s.sensorCouriers ++ [⟨tid, engineerTid, .starts index⟩] }
        ([], [])
  | hand {s : SensorNetwork} {c : SensorCourier} {claim : SensorClaim}
      (hMem : c ∈ s.sensorCouriers) (hAsks : c.errand = .asks) :
      Step courierTid workerTid s (.hand c.tid claim)
        { s with sensorCouriers := redirect c.tid (.claims claim) s.sensorCouriers } ([], [])
  | claim {s : SensorNetwork} {c : SensorCourier} {req : SensorRequest} {server : SensorServer}
      {out : List SensorOutput} (hMem : c ∈ s.sensorCouriers) (hRequest : c.request = some req)
      (hServe : serveSensors s.server c.tid req = .ok (server, out)) :
      Step courierTid workerTid s (.claim c.tid req)
        ⟨server, s.courier, redirect c.tid .asks s.sensorCouriers⟩ ([], out)
  | report {s : SensorNetwork} {data : BitVec 8} {seq time : Nat} {server : SensorServer}
      {out : List SensorOutput}
      (hServe : serveSensors s.server workerTid (.newSensor data seq time) = .ok (server, out)) :
      Step courierTid workerTid s (.report data seq time)
        ⟨server, s.courier.hear courierTid out, s.sensorCouriers⟩
        (attributed s.server.attrs (.newSensor data seq time), out)
  | ask {s : SensorNetwork} {server : SensorServer} {out : List SensorOutput}
      (hAsks : s.courier = .asks)
      (hServe : serveSensors s.server courierTid .requestSensor = .ok (server, out)) :
      Step courierTid workerTid s .ask
        ⟨server, EngineerCourier.waits.hear courierTid out, s.sensorCouriers⟩ ([], out)
  | bring {s : SensorNetwork} {delivery : SensorDelivery} (hBrings : s.courier = .brings delivery) :
      Step courierTid workerTid s (.bring delivery) { s with courier := .asks } ([], [])

def sensorNetwork (courierTid workerTid : Nat) (sensorBuf : Nat → SensorDelivery) :
    Machine SensorNetwork NetworkEvent (List SensorDelivery × List SensorOutput) where
  start := ⟨initSensorServer sensorBuf, .asks, []⟩
  step := SensorNetwork.Step courierTid workerTid

/-- No two tasks have the same tid, and the parser creates no more engineers than there is room
for, each at a sensor. -/
def OnNetwork (_ : NetworkHistory) (s : SensorNetwork) : NetworkEvent → Prop
  | .spawn tid engineerTid index => s.sensorCouriers.length < maxNumEngineer ∧ 0 < engineerTid ∧
      IsSensorIndex index ∧ ∀ c ∈ s.sensorCouriers, c.tid ≠ tid
  | _ => True

namespace NetworkEvent

def brought : NetworkEvent → List SensorDelivery
  | bring delivery => [delivery]
  | _ => []

/-- The claims that the engineer of a sensor courier makes. -/
def handed (tid : Nat) : NetworkEvent → List SensorClaim
  | spawn tid' engineerTid index =>
    if tid' = tid then (SensorRequest.initialClaim index engineerTid).claims else []
  | hand tid' next => if tid' = tid then [next] else []
  | _ => []

/-- The claims that the server hears of from a sensor courier. -/
def told (tid : Nat) : NetworkEvent → List SensorClaim
  | claim tid' req => if tid' = tid then req.claims else []
  | _ => []

end NetworkEvent

namespace NetworkHistory

def attributed (h : NetworkHistory) : List SensorDelivery := h.flatMap (·.2.1)

def brought (h : NetworkHistory) : List SensorDelivery := h.flatMap (·.1.brought)

def AtMostUnderway (n : Nat) (h : NetworkHistory) : Prop :=
  h.attributed.length ≤ h.brought.length + n

def handed (tid : Nat) (h : NetworkHistory) : List SensorClaim := h.flatMap (·.1.handed tid)

def told (tid : Nat) (h : NetworkHistory) : List SensorClaim := h.flatMap (·.1.told tid)

def Spawned (h : NetworkHistory) (tid engineerTid : Nat) : Prop :=
  ∃ round ∈ h, ∃ index, round.1 = .spawn tid engineerTid index

/-- The engineer's last claim that the server has heard of names the sensor. -/
def Claims (h : NetworkHistory) (engineerTid : Nat) (sensorIndex : Int) : Prop :=
  ∃ tid claim, h.Spawned tid engineerTid ∧ (h.told tid).getLast? = some claim ∧
    claim.names sensorIndex

end NetworkHistory

section Runs

variable {courierTid workerTid : Nat} {sensorBuf : Nat → SensorDelivery} {h : NetworkHistory}
variable {s s' : SensorNetwork} {e : NetworkEvent}
variable {o : List SensorDelivery × List SensorOutput} {server server' : SensorServer}
variable {sensorIndex : Int} {time tid seq : Nat} {data : BitVec 8} {is : List Nat}
variable {out : List SensorOutput}

/-- A courier that waits is given at most one hit, and then it is not waited for any more. -/
theorem triggerSensor_hands (server : SensorServer) (sensorIndex : Int) (time : Nat) :
    (triggerSensor server sensorIndex time).1.engineerCourierTid = server.engineerCourierTid ∧
        (triggerSensor server sensorIndex time).2 = [] ∨
      server.engineerCourierTid ≠ 0 ∧
        (triggerSensor server sensorIndex time).1.engineerCourierTid = 0 ∧
        ∃ delivery, (triggerSensor server sensorIndex time).2 =
          [.deliver server.engineerCourierTid delivery] := by
  rw [triggerSensor]
  split_ifs
  · rw [attributeTo]
    split_ifs with hWaits
    · exact .inr ⟨hWaits, rfl, _, rfl⟩
    · exact .inl ⟨rfl, rfl⟩
  · exact .inl ⟨rfl, rfl⟩

theorem newSensorLoop_hands (server : SensorServer) (data : BitVec 8) (seq time : Nat)
    (is : List Nat) :
    (newSensorLoop data seq time is server).1.engineerCourierTid = server.engineerCourierTid ∧
        (newSensorLoop data seq time is server).2 = [] ∨
      server.engineerCourierTid ≠ 0 ∧
        (newSensorLoop data seq time is server).1.engineerCourierTid = 0 ∧
        ∃ delivery, (newSensorLoop data seq time is server).2 =
          [.deliver server.engineerCourierTid delivery] := by
  induction is generalizing server with
  | nil => exact .inl ⟨rfl, rfl⟩
  | cons i is ih =>
    rw [newSensorLoop_cons]
    split_ifs
    · have hLater := ih (triggerSensor server (sensorOfBit seq i) time).1
      rcases triggerSensor_hands server (sensorOfBit seq i) time with
        ⟨hSame, hNone⟩ | ⟨hWaits, hFree, delivery, hOne⟩
      · rw [hSame] at hLater
        simpa only [hNone, List.nil_append] using hLater
      · rcases hLater with ⟨hSame, hNone⟩ | ⟨hStill, -⟩
        · refine .inr ⟨hWaits, hSame.trans hFree, delivery, ?_⟩
          simp only [hOne, hNone, List.append_nil]
        · exact absurd hFree hStill
    · exact ih server

variable (h e o) in
theorem NetworkHistory.attributed_concat :
    NetworkHistory.attributed (h ++ [(e, o)]) = h.attributed ++ o.1 := by
  simp [NetworkHistory.attributed]

variable (h e o) in
theorem NetworkHistory.brought_concat :
    NetworkHistory.brought (h ++ [(e, o)]) = h.brought ++ e.brought := by
  simp [NetworkHistory.brought]

/-- A claim changes only the table. -/
theorem serve_request {c : SensorCourier} {req : SensorRequest} (hRequest : c.request = some req)
    (hServe : serveSensors server tid req = .ok (server', out)) :
    ∃ attrs, server' = { server with attrs } ∧ out = [.reply tid] ∧
      ((∃ index, c.errand = .starts index ∧
        initialAttribution tid index c.engineerTid server.attrs = .ok attrs) ∨
      ∃ claim, c.errand = .claims claim ∧ setAttribution tid claim server.attrs = .ok attrs) := by
  rw [SensorCourier.request] at hRequest
  cases hErrand : c.errand with
  | starts index =>
    rw [hErrand] at hRequest
    obtain rfl := Option.some.inj hRequest
    cases hAttrs : initialAttribution tid index c.engineerTid server.attrs with
    | error fault =>
      rw [serveSensors, hAttrs] at hServe
      cases hServe
    | ok attrs =>
      rw [serveSensors, hAttrs] at hServe
      obtain ⟨rfl, rfl⟩ := Prod.mk.inj (Except.ok.inj hServe)
      exact ⟨attrs, rfl, rfl, .inl ⟨index, rfl, hAttrs⟩⟩
  | claims claim =>
    rw [hErrand] at hRequest
    obtain rfl := Option.some.inj hRequest
    cases hAttrs : setAttribution tid claim server.attrs with
    | error fault =>
      rw [serveSensors, hAttrs] at hServe
      cases hServe
    | ok attrs =>
      rw [serveSensors, hAttrs] at hServe
      obtain ⟨rfl, rfl⟩ := Prod.mk.inj (Except.ok.inj hServe)
      exact ⟨attrs, rfl, rfl, .inr ⟨claim, rfl, hAttrs⟩⟩
  | asks =>
    rw [hErrand] at hRequest
    cases hRequest

theorem serve_ask (hServe : serveSensors server tid .requestSensor = .ok (server', out)) :
    (server' = { server with engineerCourierTid := tid } ∧ out = []) ∨
      ∃ delivery, server'.engineerCourierTid = 0 ∧ server'.attrs = server.attrs ∧
        out = [.deliver tid delivery] := by
  rw [serveSensors] at hServe
  cases hNext : server.sensorQueue.dequeue with
  | none =>
    rw [hNext] at hServe
    obtain ⟨rfl, rfl⟩ := Prod.mk.inj (Except.ok.inj hServe)
    exact .inl ⟨rfl, rfl⟩
  | some r =>
    rw [hNext] at hServe
    dsimp only at hServe
    split_ifs at hServe with hFree
    obtain ⟨rfl, rfl⟩ := Prod.mk.inj (Except.ok.inj hServe)
    exact .inr ⟨_, hFree, rfl, rfl⟩

theorem serve_report (hServe : serveSensors server tid (.newSensor data seq time) =
      .ok (server', out)) :
    (server'.engineerCourierTid = server.engineerCourierTid ∧ out = [.reply tid]) ∨
      server.engineerCourierTid ≠ 0 ∧ server'.engineerCourierTid = 0 ∧
        ∃ delivery, out = [.deliver server.engineerCourierTid delivery, .reply tid] := by
  have hEq : serveSensors server tid (.newSensor data seq time) =
      .ok ((newSensorLoop data seq time (List.range 8) server).1,
        (newSensorLoop data seq time (List.range 8) server).2 ++ [.reply tid]) := rfl
  obtain ⟨rfl, rfl⟩ := Prod.mk.inj (Except.ok.inj (hEq.symm.trans hServe))
  rcases newSensorLoop_hands server data seq time (List.range 8) with
    ⟨hSame, hNone⟩ | ⟨hWaits, hFree, delivery, hOne⟩
  · rw [hNone]
    exact .inl ⟨hSame, rfl⟩
  · rw [hOne]
    exact .inr ⟨hWaits, hFree, delivery, rfl⟩

/-- The server knows whether the courier waits. -/
structure SensorNetwork.Knows (courierTid : Nat) (s : SensorNetwork) : Prop where
  waits : s.courier = .waits → s.server.engineerCourierTid = courierTid
  away : s.courier ≠ .waits → s.server.engineerCourierTid = 0

namespace SensorNetwork

/-- What the server gives away the courier has, until it has brought it. -/
theorem Knows.step (hKnows : s.Knows courierTid) (hStep : Step courierTid workerTid s e s' o) :
    s'.Knows courierTid ∧
      s.courier.held ++ o.2.flatMap SensorOutput.delivery = e.brought ++ s'.courier.held := by
  cases hStep with
  | spawn => exact ⟨⟨hKnows.waits, hKnows.away⟩, List.append_nil _⟩
  | hand hMem hAsks => exact ⟨⟨hKnows.waits, hKnows.away⟩, List.append_nil _⟩
  | claim hMem hRequest hServe =>
    obtain ⟨attrs, rfl, rfl, -⟩ := serve_request hRequest hServe
    exact ⟨⟨hKnows.waits, hKnows.away⟩, List.append_nil _⟩
  | @report data seq time server out hServe =>
    rcases serve_report hServe with ⟨hSame, rfl⟩ | ⟨hWaits, hFree, delivery, rfl⟩
    · have hStill : s.courier.hear courierTid [.reply workerTid] = s.courier := by
        cases s.courier <;> rfl
      rw [hStill]
      exact ⟨⟨fun h => hSame.trans (hKnows.waits h), fun h => hSame.trans (hKnows.away h)⟩,
        List.append_nil _⟩
    · have hCourier : s.courier = .waits := of_not_not fun hAway => hWaits (hKnows.away hAway)
      rw [hCourier, hKnows.waits hCourier, EngineerCourier.hear]
      simp only [List.flatMap_cons, SensorOutput.deliveredTo, if_true, List.cons_append]
      exact ⟨⟨nofun, fun _ => hFree⟩, rfl⟩
  | @ask server out hAsks hServe =>
    rw [hAsks]
    rcases serve_ask hServe with ⟨rfl, rfl⟩ | ⟨delivery, hFree, -, rfl⟩
    · exact ⟨⟨fun _ => rfl, fun hAway => absurd rfl hAway⟩, rfl⟩
    · rw [EngineerCourier.hear]
      simp only [List.flatMap_cons, SensorOutput.deliveredTo, if_true, List.cons_append]
      exact ⟨⟨nofun, fun _ => hFree⟩, rfl⟩
  | bring hBrings =>
    have hFree := hKnows.away (by simp [hBrings])
    rw [hBrings]
    exact ⟨⟨nofun, fun _ => hFree⟩, rfl⟩

/-- The server takes one message in a step, or none. -/
theorem Step.serves (hStep : Step courierTid workerTid s e s' o) :
    (s'.server = s.server ∧ o = ([], [])) ∨
      ∃ tid req, serveSensors s.server tid req = .ok (s'.server, o.2) ∧
        o.1 = attributed s.server.attrs req := by
  cases hStep with
  | spawn => exact .inl ⟨rfl, rfl⟩
  | hand hMem hAsks => exact .inl ⟨rfl, rfl⟩
  | @claim c req server out hMem hRequest hServe =>
    refine .inr ⟨_, _, hServe, ?_⟩
    rw [SensorCourier.request] at hRequest
    cases hErrand : c.errand <;> rw [hErrand] at hRequest <;> cases hRequest <;> rfl
  | report hServe => exact .inr ⟨_, _, hServe, rfl⟩
  | ask hAsks hServe => exact .inr ⟨_, _, hServe, rfl⟩
  | bring hBrings => exact .inl ⟨rfl, rfl⟩

/-- Every hit that is attributed has been brought, or the courier has it, or it is in the queue. -/
structure Carries (courierTid : Nat) (h : NetworkHistory) (s : SensorNetwork) : Prop where
  knows : s.Knows courierTid
  sound : s.server.Sound
  attributed : h.attributed = h.brought ++ s.courier.held ++ s.server.sensorQueue.contents

theorem Carries.step (hCarries : s.Carries courierTid h)
    (hStep : Step courierTid workerTid s e s' o)
    (hFew : NetworkHistory.AtMostUnderway 63 (h ++ [(e, o)])) :
    s'.Carries courierTid (h ++ [(e, o)]) := by
  obtain ⟨hKnows, hHeld⟩ := hCarries.knows.step hStep
  have hAttributed := hCarries.attributed
  rw [NetworkHistory.AtMostUnderway, NetworkHistory.attributed_concat,
    NetworkHistory.brought_concat] at hFew
  rcases hStep.serves with ⟨hServer, rfl⟩ | ⟨tid, req, hServe, hAtts⟩
  · have hSame : s.courier.held = e.brought ++ s'.courier.held :=
      (List.append_nil _).symm.trans hHeld
    refine ⟨hKnows, hServer ▸ hCarries.sound, ?_⟩
    rw [NetworkHistory.attributed_concat, NetworkHistory.brought_concat, hServer, hAttributed,
      List.append_nil, hSame, ← List.append_assoc h.brought]
  · have hLength := congrArg List.length hHeld
    have hWhole := congrArg List.length hAttributed
    simp only [List.length_append] at hFew hLength hWhole
    rw [hAtts] at hFew
    have hPasses := serveSensors_passes hCarries.sound hServe (by omega)
    refine ⟨hKnows, hPasses.sound, ?_⟩
    rw [NetworkHistory.attributed_concat, NetworkHistory.brought_concat, hAtts,
      balance_concat hAttributed hPasses.conserves, List.append_assoc h.brought, hHeld,
      ← List.append_assoc h.brought]

end SensorNetwork

theorem network_carries
    (hRun : (sensorNetwork courierTid workerTid sensorBuf).Run OnNetwork h s)
    (hFew : ∀ h' : NetworkHistory, h' <+: h → h'.AtMostUnderway 63) : s.Carries courierTid h := by
  refine hRun.invariant (fun (h : NetworkHistory) s =>
    (∀ h' : NetworkHistory, h' <+: h → h'.AtMostUnderway 63) → s.Carries courierTid h) ?_ ?_ hFew
  · intro _
    have hWellFormed : (initSensorServer sensorBuf).sensorQueue.WellFormed :=
      ⟨Nat.succ_pos 63, Nat.succ_pos 63⟩
    refine ⟨⟨nofun, fun _ => rfl⟩, ⟨hWellFormed, rfl, fun hWaits => absurd rfl hWaits⟩, ?_⟩
    exact (hWellFormed.contents_eq_nil_iff.mpr rfl).symm
  · intro h s e s' o ih _ hStep hFew
    have hBefore := ih fun h' hPrefix => hFew h' (hPrefix.trans (List.prefix_append ..))
    exact hBefore.step hStep (hFew _ List.prefix_rfl)

end Runs

end TrainKernel.User
