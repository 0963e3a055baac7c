import TrainKernel.User.SensorDeliveries

/-!
# Rising edges of the sensors

The sensor worker reads ten bytes a poll and keeps the last value of each. What it sends to the
sensor server are the bits that are set now and were clear in the poll before.
-/

namespace TrainKernel.User

open Function

/-- `NUM_SENSORS` of `sensor.c`; there are two bytes for each. -/
def numSensorGroups : Nat := 5

/-- What `Getc` gives, and the time at that moment. -/
structure Reading where
  byte : BitVec 8
  now : Nat

/-- The readings of a poll, by their place in it. -/
abbrev Poll := Nat → Reading

/-- One round of the loop over the bytes of a poll. A timestamp of 0 has not been taken yet. -/
def workerByte (i : Nat) (c : BitVec 8) (now : Nat) (sensorStates : Nat → BitVec 8)
    (timestamp : Nat) : (Nat → BitVec 8) × Nat × List SensorRequest :=
  if c ≠ 0 then
    let old := sensorStates i
    let sensorStates := update sensorStates i c
    let c := ~~~old &&& c
    if c = 0 then (sensorStates, timestamp, [])
    else
      let timestamp := if timestamp = 0 then now else timestamp
      (sensorStates, timestamp, [.newSensor c i timestamp])
  else (update sensorStates i 0, timestamp, [])

def pollLoop (poll : Poll) :
    List Nat → (Nat → BitVec 8) → Nat → (Nat → BitVec 8) × List SensorRequest
  | [], sensorStates, _ => (sensorStates, [])
  | i :: rest, sensorStates, timestamp =>
    let (sensorStates, timestamp, sent) :=
      workerByte i (poll i).byte (poll i).now sensorStates timestamp
    let (sensorStates, later) := pollLoop poll rest sensorStates timestamp
    (sensorStates, sent ++ later)

/-- What is sent in each of the polls. -/
def sensorPolls : List Poll → (Nat → BitVec 8) → List (List SensorRequest)
  | [], _ => []
  | poll :: polls, sensorStates =>
    let (sensorStates, sent) := pollLoop poll (List.range (2 * numSensorGroups)) sensorStates 0
    sent :: sensorPolls polls sensorStates

def sensorWorker (polls : List Poll) : List (List SensorRequest) := sensorPolls polls fun _ => 0

variable {data : BitVec 8} {seq time tid : Nat} {s : SensorServer} {poll : Poll}
variable {states : Nat → BitVec 8} {is : List Nat}

/-- One trigger after the other, all with the same time. -/
def triggerAll (time : Nat) :
    List Int → SensorServer → SensorServer × List SensorOutput
  | [], s => (s, [])
  | sensorIndex :: rest, s =>
    let (s, sent) := triggerSensor s sensorIndex time
    let (s, later) := triggerAll time rest s
    (s, sent ++ later)

def sensorsOf (data : BitVec 8) (seq : Nat) : List Nat → List Int
  | [] => []
  | i :: rest =>
    if data.getLsbD i then sensorOfBit seq i :: sensorsOf data seq rest
    else sensorsOf data seq rest

/-- The sensors of a request, in the order in which they are looked at. -/
def SensorRequest.sensors : SensorRequest → List Int
  | .newSensor data seq _ => sensorsOf data seq (List.range 8)
  | _ => []

theorem newSensorLoop_eq (data : BitVec 8) (seq time : Nat) (is : List Nat) (s : SensorServer) :
    newSensorLoop data seq time is s = triggerAll time (sensorsOf data seq is) s := by
  induction is generalizing s with
  | nil => rfl
  | cons i is ih =>
    rw [newSensorLoop_cons, sensorsOf]
    split_ifs
    · simp only [triggerAll, ih]
    · exact ih s

/-- Whatever state the server is in, it triggers the given sensors and replies. -/
def Triggers (req : SensorRequest) (sensors : List Int) : Prop :=
  ∃ time, ∀ s tid, serveSensors s tid req =
    .ok ((triggerAll time sensors s).1, (triggerAll time sensors s).2 ++ [.reply tid])

theorem newSensor_triggers (data : BitVec 8) (seq time : Nat) :
    Triggers (.newSensor data seq time) (SensorRequest.newSensor data seq time).sensors := by
  refine ⟨time, ?_⟩
  intro s tid
  rw [serveSensors, newSensorLoop_eq]
  rfl

theorem mem_sensorsOf {j : Int} :
    j ∈ sensorsOf data seq is ↔ ∃ i ∈ is, data.getLsbD i ∧ j = sensorOfBit seq i := by
  induction is with
  | nil => simp [sensorsOf]
  | cons i is ih =>
    rw [sensorsOf, List.exists_mem_cons_iff]
    split_ifs with hBit
    · rw [List.mem_cons, ih]
      simp only [hBit, true_and]
    · rw [ih]
      simp only [hBit, Bool.false_eq_true, false_and, false_or]

theorem sensorOfBit_eq (seq i : Nat) : sensorOfBit seq i = 8 * (seq : Int) + 7 - i := by
  rw [sensorOfBit, getSensorIndex]
  split_ifs with hEven
  · omega
  · omega

/-- The bits of byte `i` that are set now and were clear before. -/
def edgeBits (old new : Nat → BitVec 8) (i : Nat) : BitVec 8 := ~~~old i &&& new i

abbrev Poll.bytes (poll : Poll) (i : Nat) : BitVec 8 := (poll i).byte

/-- Each byte is kept as it was read, and its edges are sent if there are any. -/
theorem workerByte_cases (poll : Poll) (i : Nat) (states : Nat → BitVec 8) (timestamp : Nat) :
    ∃ timestamp' sent, workerByte i (poll i).byte (poll i).now states timestamp =
      (update states i (poll.bytes i), timestamp', sent) ∧
      (sent = [] ∧ edgeBits states poll.bytes i = 0 ∨
        sent = [.newSensor (edgeBits states poll.bytes i) i timestamp']) := by
  rw [workerByte, edgeBits]
  by_cases hClear : (poll i).byte = 0
  · rw [if_neg (not_not.mpr hClear), Poll.bytes, hClear]
    exact ⟨_, _, rfl, .inl ⟨rfl, BitVec.and_zero⟩⟩
  · rw [if_pos hClear]
    dsimp only
    by_cases hKnown : ~~~states i &&& (poll i).byte = 0
    · rw [if_pos hKnown]
      exact ⟨_, _, rfl, .inl ⟨rfl, hKnown⟩⟩
    · rw [if_neg hKnown]
      exact ⟨_, _, rfl, .inr rfl⟩

theorem pollLoop_cons (poll : Poll) (i : Nat) (is : List Nat) (states : Nat → BitVec 8)
    (timestamp : Nat) : ∃ timestamp' sent,
      pollLoop poll (i :: is) states timestamp =
        ((pollLoop poll is (update states i (poll.bytes i)) timestamp').1,
          sent ++ (pollLoop poll is (update states i (poll.bytes i)) timestamp').2) ∧
      (sent = [] ∧ edgeBits states poll.bytes i = 0 ∨
        sent = [.newSensor (edgeBits states poll.bytes i) i timestamp']) := by
  obtain ⟨timestamp', sent, hByte, hSent⟩ := workerByte_cases poll i states timestamp
  refine ⟨timestamp', sent, ?_, hSent⟩
  rw [pollLoop, hByte]

theorem pollLoop_triggers (poll : Poll) (is : List Nat) (states : Nat → BitVec 8)
    (timestamp : Nat) :
    ∀ req ∈ (pollLoop poll is states timestamp).2, Triggers req req.sensors := by
  induction is generalizing states timestamp with
  | nil => rintro req ⟨⟩
  | cons i is ih =>
    obtain ⟨timestamp', sent, hLoop, hSent⟩ := pollLoop_cons poll i is states timestamp
    rw [hLoop]
    intro req hMem
    cases List.mem_append.mp hMem with
    | inl hFirst =>
      rcases hSent with ⟨rfl, -⟩ | rfl
      · cases hFirst
      · rw [List.mem_singleton.mp hFirst]
        exact newSensor_triggers ..
    | inr hLater => exact ih _ _ req hLater

theorem pollLoop_states (poll : Poll) (is : List Nat) (states : Nat → BitVec 8)
    (timestamp : Nat) (j : Nat) :
    (pollLoop poll is states timestamp).1 j = if j ∈ is then poll.bytes j else states j := by
  induction is generalizing states timestamp with
  | nil => rfl
  | cons i is ih =>
    obtain ⟨timestamp', sent, hLoop, -⟩ := pollLoop_cons poll i is states timestamp
    rw [hLoop, ih]
    by_cases hHead : j = i
    · rw [hHead, update_self, if_pos List.mem_cons_self, ite_self]
    · rw [update_of_ne hHead]
      simp only [List.mem_cons, hHead, false_or]

theorem pollLoop_sensors (poll : Poll) (states : Nat → BitVec 8) (timestamp : Nat)
    (hNodup : is.Nodup) :
    (pollLoop poll is states timestamp).2.flatMap SensorRequest.sensors =
      is.flatMap fun i => sensorsOf (edgeBits states poll.bytes i) i (List.range 8) := by
  induction is generalizing states timestamp with
  | nil => rfl
  | cons i is ih =>
    obtain ⟨timestamp', sent, hLoop, hSent⟩ := pollLoop_cons poll i is states timestamp
    obtain ⟨hNotMem, hRest⟩ := List.nodup_cons.mp hNodup
    have hFirst : sent.flatMap SensorRequest.sensors =
        sensorsOf (edgeBits states poll.bytes i) i (List.range 8) := by
      rcases hSent with ⟨rfl, hNone⟩ | rfl
      · rw [hNone]
        rfl
      · exact List.flatMap_singleton ..
    rw [hLoop, List.flatMap_append, hFirst, ih _ _ hRest, List.flatMap_cons]
    congr 1
    apply List.flatMap_congr
    intro j hj
    rw [edgeBits, edgeBits, update_of_ne (ne_of_mem_of_not_mem hj hNotMem)]

/-- A bit of the sensor's byte has risen. -/
def Rises (old new : Nat → BitVec 8) (sensorIndex : Int) : Prop :=
  ∃ seq < 2 * numSensorGroups, ∃ bit < 8, (new seq).getLsbD bit = true ∧
    (old seq).getLsbD bit = false ∧ sensorIndex = 8 * (seq : Int) + 7 - bit

/-- What is handled in a poll: each edge once, and nothing else. -/
structure HandlesEdges (old new : Nat → BitVec 8) (sent : List SensorRequest) : Prop where
  triggers : ∀ req ∈ sent, Triggers req req.sensors
  nodup : (sent.flatMap SensorRequest.sensors).Nodup
  mem_iff : ∀ sensorIndex, sensorIndex ∈ sent.flatMap SensorRequest.sensors ↔
    Rises old new sensorIndex

theorem Rises.bounds {old new : Nat → BitVec 8} {sensorIndex : Int}
    (h : Rises old new sensorIndex) : 0 ≤ sensorIndex ∧ sensorIndex ≤ 79 := by
  obtain ⟨seq, hSeq, bit, hBit, -, -, rfl⟩ := h
  rw [numSensorGroups] at hSeq
  omega

theorem mem_sensorsOf_edges {old new : Nat → BitVec 8} {j : Int} :
    j ∈ sensorsOf (edgeBits old new seq) seq (List.range 8) ↔
      ∃ bit < 8, (new seq).getLsbD bit = true ∧ (old seq).getLsbD bit = false ∧
        j = 8 * (seq : Int) + 7 - bit := by
  rw [mem_sensorsOf]
  apply exists_congr
  intro bit
  rw [List.mem_range, edgeBits, BitVec.getLsbD_and, BitVec.getLsbD_not, sensorOfBit_eq]
  apply and_congr_right
  intro hBit
  simp only [hBit, decide_true, Bool.true_and, Bool.and_eq_true, Bool.not_eq_true', and_assoc,
    and_left_comm]

theorem nodup_sensorsOf (hNodup : is.Nodup) : (sensorsOf data seq is).Nodup := by
  induction is with
  | nil => exact List.nodup_nil
  | cons i is ih =>
    obtain ⟨hNotMem, hRest⟩ := List.nodup_cons.mp hNodup
    rw [sensorsOf]
    split_ifs
    · refine List.nodup_cons.mpr ⟨?_, ih hRest⟩
      rw [mem_sensorsOf]
      rintro ⟨j, hj, -, hSame⟩
      rw [sensorOfBit_eq, sensorOfBit_eq] at hSame
      have hEq : i = j := by omega
      exact hNotMem (hEq ▸ hj)
    · exact ih hRest

theorem pollLoop_handlesEdges (poll : Poll) (states : Nat → BitVec 8) :
    HandlesEdges states poll.bytes
      (pollLoop poll (List.range (2 * numSensorGroups)) states 0).2 := by
  refine ⟨pollLoop_triggers poll _ states 0, ?_, ?_⟩
  · rw [pollLoop_sensors poll states 0 List.nodup_range, List.nodup_flatMap]
    refine ⟨fun seq _ => nodup_sensorsOf List.nodup_range, ?_⟩
    apply List.pairwise_lt_range.imp
    intro seq seq' hLess j hj hj'
    obtain ⟨bit, hBit, -, -, rfl⟩ := mem_sensorsOf_edges.mp hj
    obtain ⟨bit', hBit', -, -, hSame⟩ := mem_sensorsOf_edges.mp hj'
    omega
  · intro j
    rw [pollLoop_sensors poll states 0 List.nodup_range, List.mem_flatMap]
    simp only [List.mem_range, mem_sensorsOf_edges]
    rfl

/-- The bytes before poll `k`: those of the poll before it, if it is not the first. -/
def bytesBefore (start : Nat → BitVec 8) (polls : List Poll) : Nat → Nat → BitVec 8
  | 0 => start
  | k + 1 => fun i => (polls[k]?.map fun poll => poll.bytes i).getD 0

theorem HandlesEdges.congr {old old' new : Nat → BitVec 8} {sent : List SensorRequest}
    (h : HandlesEdges old new sent) (hOld : ∀ seq < 2 * numSensorGroups, old seq = old' seq) :
    HandlesEdges old' new sent := by
  refine ⟨h.triggers, h.nodup, ?_⟩
  intro j
  rw [h.mem_iff]
  apply exists_congr
  intro seq
  apply and_congr_right
  intro hSeq
  rw [hOld seq hSeq]

/-- On the polls: the states that one of them leaves behind are its bytes. -/
theorem sensorPolls_handlesEdges (polls : List Poll) (states : Nat → BitVec 8) (k : Nat)
    (poll : Poll) (hPoll : polls[k]? = some poll) :
    ∃ sent, (sensorPolls polls states)[k]? = some sent ∧
      HandlesEdges (bytesBefore states polls k) poll.bytes sent := by
  induction polls generalizing states k with
  | nil => cases hPoll
  | cons first polls ih =>
    cases k with
    | zero =>
      obtain rfl := Option.some.inj hPoll
      exact ⟨_, rfl, pollLoop_handlesEdges first states⟩
    | succ k =>
      obtain ⟨sent, hSent, hEdges⟩ :=
        ih (pollLoop first (List.range (2 * numSensorGroups)) states 0).1 k hPoll
      refine ⟨sent, hSent, hEdges.congr ?_⟩
      intro seq hSeq
      cases k with
      | zero => exact (pollLoop_states ..).trans (if_pos (List.mem_range.mpr hSeq))
      | succ k => rfl

theorem sensor_triggers_are_edges (polls : List Poll) (k : Nat) (poll : Poll)
    (hPoll : polls[k]? = some poll) :
    ∃ sent, (sensorWorker polls)[k]? = some sent ∧
      HandlesEdges (bytesBefore (fun _ => 0) polls k) poll.bytes sent ∧
      ∀ sensorIndex ∈ sent.flatMap SensorRequest.sensors, 0 ≤ sensorIndex ∧ sensorIndex ≤ 79 := by
  obtain ⟨sent, hSent, hEdges⟩ := sensorPolls_handlesEdges polls (fun _ => 0) k poll hPoll
  refine ⟨sent, hSent, hEdges, ?_⟩
  intro sensorIndex hMem
  exact ((hEdges.mem_iff sensorIndex).mp hMem).bounds

/-- Every sensor is held down. -/
def heldPoll : Poll := fun _ => ⟨255, 1⟩

theorem sensor_triggers_are_edges_held :
    ∃ sent, (sensorWorker [heldPoll, heldPoll])[1]? = some sent ∧
      HandlesEdges (bytesBefore (fun _ => 0) [heldPoll, heldPoll] 1) heldPoll.bytes sent ∧
      ∀ sensorIndex ∈ sent.flatMap SensorRequest.sensors, 0 ≤ sensorIndex ∧ sensorIndex ≤ 79 :=
  sensor_triggers_are_edges [heldPoll, heldPoll] 1 heldPoll rfl

end TrainKernel.User
