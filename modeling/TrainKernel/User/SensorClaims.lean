import TrainKernel.User.EngineerRuns

/-!
# Claims for the sensor courier

The sensor courier waits at the engineer for the next claim, or it is on its way; a claim that
finds it on its way is stored. A reversal changes the claim that the courier waits for or the one
that is stored, and if there is neither the new claim is lost.
-/

namespace TrainKernel.User

open Library.Outcome

variable {Node : Type} {world : EngineerWorld Node} {around : Surroundings Node}
variable {t t' : EngineerTurn Node}

namespace Claims

/-- The claim goes to the courier if it waits, and is stored otherwise. -/
def tell (c : Claims Node) (claim : SensorClaim) : Claims Node :=
  if c.sensorCourierTid ≠ 0 then { c with sensorCourierTid := 0, handed := c.handed ++ [claim] }
  else { c with outstandingClaim := claim, hasOutstandingClaim := true }

def request (c : Claims Node) (tid : Nat) : Claims Node :=
  if c.hasOutstandingClaim then
    { c with hasOutstandingClaim := false, handed := c.handed ++ [c.outstandingClaim] }
  else { c with sensorCourierTid := tid }

/-- A claim can be changed as long as the courier is not on its way with it. -/
def Reachable (c : Claims Node) : Prop := c.hasOutstandingClaim = true ∨ c.sensorCourierTid ≠ 0

/-- What a reversal makes of a claim that can be changed. -/
def correct (c : Claims Node) (claim : SensorClaim) : Claims Node :=
  if c.hasOutstandingClaim then { c with outstandingClaim := claim }
  else { c with sensorCourierTid := 0, handed := c.handed ++ [claim] }

end Claims

theorem claims_reply (tid : Nat) (claim : SensorClaim) :
    (t.send (.claim tid claim)).claims =
      { t.claims with handed := t.claims.handed ++ [claim] } := by
  simp [EngineerTurn.claims, EngineerTurn.send, EngineerOutput.claim?]

theorem sensorCourierRequest_claims (tid : Nat) :
    (sensorCourierRequest t tid).claims = t.claims.request tid ∧
      KeepsOrders t (sensorCourierRequest t tid) := by
  have hStored : t.claims.hasOutstandingClaim = t.engineer.hasOutstandingClaim := rfl
  rw [sensorCourierRequest, Claims.request, hStored]
  split_ifs with hOutstanding
  · constructor
    · exact congrArg (fun c : Claims Node => { c with hasOutstandingClaim := false })
        (claims_reply tid t.engineer.outstandingClaim)
    · exact (KeepsOrders.send rfl).trans ⟨rfl, rfl⟩
  · exact ⟨rfl, rfl, rfl⟩

theorem passSensor_does (t : EngineerTurn Node) : Does t (passSensor t) [] := by
  rw [passSensor]
  dsimp only
  split
  · exact (sendLocation_does _ _).trans (.of_eq rfl rfl rfl rfl)
  · split
    · exact .of_eq rfl rfl rfl rfl
    · exact .refl t

theorem passSensor_trackBitmap (t : EngineerTurn Node) :
    (passSensor t).trackBitmap = t.trackBitmap := by
  rw [passSensor]
  dsimp only
  split
  · rfl
  · split
    · rfl
    · rfl

theorem recordSensor_does (e : Engineer Node) (sensor time : Int)
    (message : LocationMessage Node) :
    Does { t with engineer := e } { t with engineer := recordSensor e sensor time message } [] := by
  rw [recordSensor, learn]
  split_ifs
  · exact .of_eq rfl rfl rfl rfl
  · exact .of_eq rfl rfl rfl rfl
  · exact .refl _

theorem claimNext_claims : Yields (fun t' => KeepsOrders t t' ∧ ∃ claim,
    getNextClaims world.track t.trackBitmap t.claims.prevSensor = .ok claim ∧
    (t.claims.sensorCourierTid = 0 → t.claims.hasOutstandingClaim = false) ∧
    t'.claims = t.claims.tell claim) (claimNext world t) := by
  rw [claimNext]
  refine EndsWell.ite (fun hWaits => ?_) fun hBusy => ?_
  · refine Yields.skip fun claim hClaim => EndsWell.pure ⟨?_, claim, hClaim, ?_, ?_⟩
    · exact (KeepsOrders.send rfl).trans ⟨rfl, rfl⟩
    · exact fun hNone => absurd hNone hWaits
    · have hWaits' : t.claims.sensorCourierTid ≠ 0 := hWaits
      rw [Claims.tell, if_pos hWaits']
      exact congrArg (fun c : Claims Node => { c with sensorCourierTid := 0 })
        (claims_reply t.engineer.sensorCourierTid claim)
  · refine Yields.skip fun _ hAssert => Yields.skip fun claim hClaim =>
      EndsWell.pure ⟨⟨rfl, rfl⟩, claim, hClaim, fun _ => ?_, ?_⟩
    · change t.engineer.hasOutstandingClaim = false
      cases hStored : t.engineer.hasOutstandingClaim with
      | false => rfl
      | true =>
        rw [hStored] at hAssert
        cases hAssert
    · have hBusy' : ¬t.claims.sensorCourierTid ≠ 0 := hBusy
      rw [Claims.tell, if_neg hBusy']
      rfl

/-- The engineer after a sensor, and before it looks at its state. -/
def Engineer.recorded (e : Engineer Node) (sensor time : Int) (message : LocationMessage Node) :
    Engineer Node :=
  { recordSensor e sensor time message with creationTime := time, lastUpdate := ⟨sensor, time⟩ }

theorem recorded_claims (e : Engineer Node) (sensor time : Int) (message : LocationMessage Node) :
    (EngineerTurn.claims { t with engineer := e.recorded sensor time message }) =
      { EngineerTurn.claims { t with engineer := e } with creationTime := time } :=
  congrArg (fun c : Claims Node => { c with creationTime := time })
    (recordSensor_does (t := t) e sensor time message).claims

theorem recorded_keeps (e : Engineer Node) (sensor time : Int) (message : LocationMessage Node) :
    KeepsOrders { t with engineer := e } { t with engineer := e.recorded sensor time message } :=
  let hDoes := recordSensor_does (t := t) e sensor time message
  ⟨hDoes.orders, hDoes.ebook⟩

theorem claimNext_recorded (e : Engineer Node) (sensor time : Int)
    (message : LocationMessage Node) :
    Yields (fun t' => KeepsOrders { t with engineer := e } t' ∧ ∃ claim,
      getNextClaims world.track t.trackBitmap e.prevSensor = .ok claim ∧
      (e.sensorCourierTid = 0 → e.hasOutstandingClaim = false) ∧
      t'.claims = Claims.tell
        { EngineerTurn.claims { t with engineer := e } with creationTime := time } claim)
      (claimNext world (passSensor { t with engineer := e.recorded sensor time message })) := by
  have hPassed := passSensor_does { t with engineer := e.recorded sensor time message }
  apply claimNext_claims.mono
  intro t' hClaimed
  rw [hPassed.claims, recorded_claims, passSensor_trackBitmap] at hClaimed
  obtain ⟨hOrders, hClaim⟩ := hClaimed
  have hKeeps : KeepsOrders _ (passSensor _) := ⟨hPassed.orders, hPassed.ebook⟩
  exact ⟨(recorded_keeps e sensor time message).trans (hKeeps.trans hOrders), hClaim⟩

/-- The claims after a sensor, if the report is not an old one. -/
def Claims.pass (c : Claims Node) (node : Node) (time : Int) : Claims Node :=
  { c with prevSensor := some node, creationTime := time }

theorem updateSensor_claims [DecidableEq Node] (tid : Nat) (sensor time : Int) :
    Yields (fun t' => KeepsOrders t t' ∧ (time ≤ t.engineer.creationTime ∧ t'.claims = t.claims ∨
      t.engineer.creationTime < time ∧ ∃ claim,
        getNextClaims world.track t.trackBitmap (some (world.gTrack sensor)) = .ok claim ∧
        (t.engineer.sensorCourierTid = 0 → t.engineer.hasOutstandingClaim = false) ∧
        t'.claims = (t.claims.pass (world.gTrack sensor) time).tell claim))
      (updateSensor world t tid sensor time) := by
  refine Yields.skip fun _ _ => EndsWell.ite (fun hOld => EndsWell.pure ?_) fun hNew => ?_
  · exact ⟨.send rfl, Or.inl ⟨hOld, claims_send rfl⟩⟩
  · refine Yields.skip fun nextSensor _ => Yields.skip fun sensorDist _ => Yields.skip fun _ _ =>
      Yields.skip fun _ _ => Yields.skip fun nextNode _ => Yields.skip fun _ _ =>
      Yields.skip fun nextEdge _ => Yields.skip fun expectedTime _ =>
      (claimNext_recorded _ sensor time _).mono fun t' hClaimed => ?_
    obtain ⟨hOrders, claim, hClaim, hStored, hTell⟩ := hClaimed
    have hKeeps : KeepsOrders (t.send (.reply tid)) t' := ⟨hOrders.orders, hOrders.ebook⟩
    have hReply : (t.send (.reply tid)).claims = t.claims := claims_send rfl
    refine ⟨(KeepsOrders.send rfl).trans hKeeps,
      Or.inr ⟨not_le.mp hNew, claim, hClaim, hStored, ?_⟩⟩
    rw [← hReply]
    exact hTell

theorem commandWorkerReverseSet_claims (tid : Nat) :
    Yields (fun t' => KeepsOrders t t' ∧ ∃ node, t'.engineer.prevSensor = some node ∧
      (t.claims.Reachable → ∃ claim,
        getNextClaims world.track t.trackBitmap (some node) = .ok claim ∧
        t'.claims = Claims.correct { t.claims with prevSensor := some node } claim) ∧
      (¬t.claims.Reachable → t'.claims = { t.claims with prevSensor := some node }))
      (commandWorkerReverseSet world t tid) := by
  have hReply : (t.send (.reply tid)).claims = t.claims := claims_send rfl
  refine Yields.skip fun prevNode _ => Yields.skip fun _ _ => Yields.skip fun temp _ =>
    Yields.skip fun nextSensor _ => Yields.skip fun prevSensor _ => ?_
  refine EndsWell.ite (fun hStored => ?_) fun hNone => EndsWell.ite (fun hWaits => ?_)
    fun hBusy => ?_
  · refine Yields.skip fun claim hClaim => EndsWell.pure ⟨?_, _, rfl, fun _ => ?_, fun hNot => ?_⟩
    · exact (KeepsOrders.send rfl).trans ⟨rfl, rfl⟩
    · refine ⟨claim, hClaim, ?_⟩
      have hStored' : t.claims.hasOutstandingClaim = true := hStored
      rw [Claims.correct, if_pos hStored', ← hReply]
      rfl
    · exact absurd (Or.inl hStored) hNot
  · refine Yields.skip fun claim hClaim => EndsWell.pure ⟨?_, _, rfl, fun _ => ?_, fun hNot => ?_⟩
    · exact (KeepsOrders.send rfl).trans ((KeepsOrders.send rfl).trans ⟨rfl, rfl⟩)
    · refine ⟨claim, hClaim, ?_⟩
      have hNone' : ¬t.claims.hasOutstandingClaim = true := hNone
      rw [Claims.correct, if_neg hNone', ← hReply]
      exact congrArg (fun c : Claims Node =>
        { c with sensorCourierTid := 0, prevSensor := some (world.track.reverse nextSensor) })
        (claims_reply (t := t.send (.reply tid)) t.engineer.sensorCourierTid claim)
    · exact absurd (Or.inr hWaits) hNot
  · refine EndsWell.pure ⟨?_, _, rfl, fun hReachable => ?_, fun _ => ?_⟩
    · exact (KeepsOrders.send rfl).trans ⟨rfl, rfl⟩
    · exact (hReachable.elim hNone hBusy).elim
    · rw [← hReply]
      rfl

/-- The last claim that the courier was given, and the claim that fits the last sensor. -/
structure ClaimTrace where
  handed : Option SensorClaim
  wanted : Option SensorClaim

/-- An old report of a sensor is rejected. -/
def Engineer.setsPrevSensor (e : Engineer Node) : EngineerMessage → Bool
  | .updateSensor _ time => e.creationTime < time
  | .commandWorkerReverseSet => true
  | _ => false

def ClaimTrace.after (world : EngineerWorld Node) (trace : ClaimTrace) (t : EngineerTurn Node)
    (message : EngineerMessage) (t' : EngineerTurn Node) : ClaimTrace where
  handed := t'.claims.handed.getLast?.or trace.handed
  wanted :=
    if t.engineer.setsPrevSensor message then
      (getNextClaims world.track t.trackBitmap t'.engineer.prevSensor).toOption
    else trace.wanted

def claimTrace [DecidableEq Node] (world : EngineerWorld Node) :
    Engineer Node → ClaimTrace → List (EngineerRound Node) → ClaimTrace :=
  recordRounds world fun trace e round t => trace.after world (round.turn e) round.message t

/-- A claim that is to be replaced is still with the engineer. -/
def Engineer.CorrectsClaim (e : Engineer Node) (message : EngineerMessage) : Prop :=
  message = .commandWorkerReverseSet → e.hasOutstandingClaim = true ∨ e.sensorCourierTid ≠ 0

instance (e : Engineer Node) : DecidablePred e.CorrectsClaim :=
  fun _ => inferInstanceAs (Decidable (_ → _))

/-- The claims of an engineer agree with what the courier has been given. -/
structure Told (c : Claims Node) (trace : ClaimTrace) : Prop where
  waiting : c.sensorCourierTid ≠ 0 → c.hasOutstandingClaim = false
  stored : c.hasOutstandingClaim = true → some c.outstandingClaim = trace.wanted
  told : c.hasOutstandingClaim = false → c.handed.getLast?.or trace.handed = trace.wanted
  known : c.prevSensor ≠ none → trace.wanted ≠ none

variable {c : Claims Node} {trace : ClaimTrace} {claim : SensorClaim}

theorem getLast?_concat_or (handed : List SensorClaim) (before : Option SensorClaim) :
    (handed ++ [claim]).getLast?.or before = some claim := by
  rw [List.getLast?_concat, Option.some_or]

namespace Told

theorem request (h : Told c trace) (tid : Nat) : Told (c.request tid) trace := by
  rw [Claims.request]
  split_ifs with hStored
  · constructor
    · exact fun _ => rfl
    · exact fun hStored' => absurd hStored' Bool.false_ne_true
    · exact fun _ => (getLast?_concat_or ..).trans (h.stored hStored)
    · exact h.known
  · exact ⟨fun _ => Bool.eq_false_iff.mpr hStored, h.stored, h.told, h.known⟩

/-- The courier is given the claim for a new sensor, or it will get it next. -/
theorem tell (hWaiting : c.sensorCourierTid ≠ 0 → c.hasOutstandingClaim = false) :
    Told (c.tell claim) { trace with wanted := some claim } := by
  rw [Claims.tell]
  split_ifs with hWaits
  · constructor
    · exact fun hNone => absurd rfl hNone
    · intro hStored
      rw [hWaiting hWaits] at hStored
      cases hStored
    · exact fun _ => getLast?_concat_or ..
    · exact fun _ => Option.some_ne_none claim
  · constructor
    · exact fun hOther => absurd hOther hWaits
    · exact fun _ => rfl
    · exact fun hStored => Bool.noConfusion hStored
    · exact fun _ => Option.some_ne_none claim

theorem correct (hWaiting : c.sensorCourierTid ≠ 0 → c.hasOutstandingClaim = false) :
    Told (c.correct claim) { trace with wanted := some claim } := by
  rw [Claims.correct]
  split_ifs with hStored
  · constructor
    · exact hWaiting
    · exact fun _ => rfl
    · intro hNone
      rw [hStored] at hNone
      cases hNone
    · exact fun _ => Option.some_ne_none claim
  · constructor
    · exact fun hNone => absurd rfl hNone
    · exact fun hStored' => absurd hStored' hStored
    · exact fun _ => getLast?_concat_or ..
    · exact fun _ => Option.some_ne_none claim

end Told

theorem told_of_same {message : EngineerMessage} (h : Told t.claims trace)
    (hSets : t.engineer.setsPrevSensor message = false) (hClaims : t'.claims = t.claims) :
    Told t'.claims { trace with wanted := (trace.after world t message t').wanted } := by
  rw [ClaimTrace.after, hSets, hClaims]
  exact h

theorem told_of_new {message : EngineerMessage} {node : Node}
    (hSets : t.engineer.setsPrevSensor message = true)
    (hNode : t'.claims.prevSensor = some node)
    (hClaim : getNextClaims world.track t.trackBitmap (some node) = .ok claim)
    (hTold : Told t'.claims { trace with wanted := some claim }) :
    Told t'.claims { trace with wanted := (trace.after world t message t').wanted } := by
  have hNode' : t'.engineer.prevSensor = some node := hNode
  rw [ClaimTrace.after, hSets, hNode', hClaim]
  exact hTold

theorem Claims.tell_prevSensor (c : Claims Node) (claim : SensorClaim) :
    (c.tell claim).prevSensor = c.prevSensor := by
  rw [tell]
  split_ifs
  · rfl
  · rfl

theorem Claims.correct_prevSensor (c : Claims Node) (claim : SensorClaim) :
    (c.correct claim).prevSensor = c.prevSensor := by
  rw [correct]
  split_ifs
  · rfl
  · rfl

theorem handleMessage_told [DecidableEq Node] {tid : Nat} {message : EngineerMessage}
    (h : Told t.claims trace) (hCorrects : t.engineer.CorrectsClaim message) :
    Yields (fun t' =>
        Told t'.claims { trace with wanted := (trace.after world t message t').wanted })
      (handleMessage world around t tid message) := by
  cases message with
  | updateLocation =>
    exact (updateLocation_does tid).mono fun t' hDoes => told_of_same h rfl hDoes.claims
  | updateSensor sensor time =>
    apply (updateSensor_claims tid sensor time).mono
    intro t' hSensor
    obtain ⟨-, ⟨hOld, hClaims⟩ | ⟨hTime, claim, hClaim, -, hTell⟩⟩ := hSensor
    · exact told_of_same h (decide_eq_false hOld.not_gt) hClaims
    · refine told_of_new (decide_eq_true hTime) ?_ hClaim ?_
      · rw [hTell, Claims.tell_prevSensor]
        rfl
      · rw [hTell]
        exact Told.tell h.waiting
  | commandWorkerReverseSet =>
    apply (commandWorkerReverseSet_claims tid).mono
    intro t' hReversed
    obtain ⟨-, node, -, hCorrect, -⟩ := hReversed
    obtain ⟨claim, hClaim, hClaims⟩ := hCorrect (hCorrects rfl)
    refine told_of_new rfl ?_ hClaim ?_
    · rw [hClaims, Claims.correct_prevSensor]
    · rw [hClaims]
      exact Told.correct h.waiting
  | sensorCourierRequest =>
    have hTold := h.request tid
    rw [← (sensorCourierRequest_claims tid).1] at hTold
    exact EndsWell.ok hTold
  | go index => exact (go_keeps_claims tid index).mono fun t' hGo => told_of_same h rfl hGo.1
  | xMark index offset =>
    exact (xMark_does tid index offset).mono fun t' hDoes => told_of_same h rfl hDoes.claims
  | setSpeed speed =>
    exact (setSpeed_does tid speed).mono fun t' hDoes => told_of_same h rfl hDoes.1.claims
  | setReverse => exact (setReverse_does tid).mono fun t' hDoes => told_of_same h rfl hDoes.1.claims
  | commandWorkerRequest =>
    exact (commandWorkerRequest_orders tid).mono fun t' hRequest => told_of_same h rfl hRequest.1
  | commandWorkerSpeedSet speed =>
    exact EndsWell.ok (told_of_same h rfl (commandWorkerSpeedSet_does tid speed).claims)
  | timeoutSensor => exact Yields.error
  | initializeTrain trainNumber sensorIndex => exact Yields.error

/-- Between two rounds no claim is on its way out of the engineer. -/
def Engineer.claims (e : Engineer Node) : Claims Node := EngineerTurn.claims ⟨e, 0, []⟩

theorem engineerRound_told [DecidableEq Node] {e : Engineer Node} {round : EngineerRound Node}
    (h : Told e.claims trace) (hCorrects : e.CorrectsClaim round.message) :
    Yields (fun t => Told t.engineer.claims (trace.after world (round.turn e) round.message t))
      (engineerRound world e round) := by
  apply (handleMessage_told (t := round.turn e) h hCorrects).mono
  intro t hTold
  exact ⟨hTold.waiting, hTold.stored, hTold.told, hTold.known⟩

/-- A courier that waits, with nothing stored for it, has the claim for the last sensor. -/
def ClaimsFollow [DecidableEq Node] (world : EngineerWorld Node) (e : Engineer Node)
    (rounds : List (EngineerRound Node)) : Prop :=
  ∀ e', engineerServer world e rounds = .ok e' → e'.prevSensor ≠ none →
    e'.sensorCourierTid ≠ 0 → e'.hasOutstandingClaim = false →
    ∃ claim, claimTrace world e ⟨none, none⟩ rounds = ⟨some claim, some claim⟩

theorem no_claim_lost [DecidableEq Node] (world : EngineerWorld Node)
    (trainNumber creationTime : Int) (locationWorkerTid : Nat) (cmdBuf : Nat → Command)
    (outstandingClaim : SensorClaim) (locationMessage : LocationMessage Node) (ebook : Ebook Node)
    (rounds : List (EngineerRound Node))
    (hReversals : EveryRound world (fun e round => e.CorrectsClaim round.message)
      (Engineer.start trainNumber creationTime locationWorkerTid cmdBuf outstandingClaim
        locationMessage ebook) rounds) :
    ClaimsFollow world (Engineer.start trainNumber creationTime locationWorkerTid cmdBuf
      outstandingClaim locationMessage ebook) rounds := by
  intro e' hRun hSeen hWaits hNone
  have hStart : Told (Engineer.start trainNumber creationTime locationWorkerTid cmdBuf
      outstandingClaim locationMessage ebook).claims ⟨none, none⟩ :=
    ⟨fun _ => rfl, Bool.noConfusion, fun _ => rfl, fun hSome => absurd rfl hSome⟩
  have hTold := recordRounds_invariant (fun e trace => Told e.claims trace)
    (fun e trace round h hCorrects => engineerRound_told h hCorrects) hStart hReversals hRun
  obtain ⟨claim, hClaim⟩ := Option.ne_none_iff_exists'.mp (hTold.known hSeen)
  have hHanded := hTold.told hNone
  refine ⟨claim, ?_⟩
  rw [hClaim] at hHanded
  exact congrArg₂ ClaimTrace.mk hHanded hClaim

/-- The courier waits for its first claim, and gets it. -/
def firstClaim : List (EngineerRound (Bool × Bool)) :=
  [circleRound 9 .commandWorkerRequest 10,
    circleRound 6 .sensorCourierRequest 10,
    circleRound 8 (.updateSensor 0 100) 100,
    circleRound 3 .setReverse 140,
    circleRound 9 (.commandWorkerSpeedSet 0) 141]

def reversedInTransit : List (EngineerRound (Bool × Bool)) :=
  firstClaim ++ [circleRound 9 .commandWorkerReverseSet 441,
    circleRound 6 .sensorCourierRequest 450]

def reversedInTime : List (EngineerRound (Bool × Bool)) :=
  firstClaim ++ [circleRound 6 .sensorCourierRequest 150,
    circleRound 9 .commandWorkerReverseSet 441,
    circleRound 6 .sensorCourierRequest 450]

theorem no_claim_lost_circle : ∃ claim,
    claimTrace circleWorld circleEngineer ⟨none, none⟩ reversedInTime
      = ⟨some claim, some claim⟩ :=
  no_claim_lost circleWorld 66 0 7 _ _ _ _ reversedInTime (by decide) _ rfl (by decide)
    (by decide) rfl

theorem claim_lost : ¬ClaimsFollow circleWorld circleEngineer reversedInTransit := by
  intro hFollow
  obtain ⟨claim, hTrace⟩ := hFollow _ rfl (by decide) (by decide) rfl
  have hLost : claimTrace circleWorld circleEngineer ⟨none, none⟩ reversedInTransit
      = ⟨some ⟨1, 0⟩, some ⟨2, 3⟩⟩ := rfl
  rw [hLost] at hTrace
  injection hTrace with hHanded hWanted
  rw [← hHanded] at hWanted
  exact absurd hWanted (by decide)

end TrainKernel.User
