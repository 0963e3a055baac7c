import TrainKernel.Library.Outcome
import TrainKernel.User.Controls
import TrainKernel.User.Numerals

/-!
# The display of the sensors

The sensor worker keeps the last seven sensors that were hit in a ring and draws them again at each
hit, with the newest first. When the train that is to be halted has reached its sensor, the worker
stops it.
-/

namespace TrainKernel.User

open Function Library.Outcome

def numRecentSensors : Nat := 7

def vtCsi : List Byte := [0x1b, 0x5b]
def vtSep : List Byte := [0x3b]
def vtCursorSave : List Byte := [0x1b, 0x37]
def vtCursorRestore : List Byte := [0x1b, 0x38]
/-- `VT_RESET` as bytes. -/
def vtResetCode : List Byte := [0x1b, 0x5b, 0x30, 0x6d]
def vtSensorRow : BitVec 32 := 9
def vtSensorCol : BitVec 32 := 1

def blanks : List Byte := List.replicate 6 0x20
def blanksAndNewline : List Byte := blanks ++ [0x0d, 0x0a]

/-- `sputstr` of a literal is `sputAll` of its characters. -/
def vtPos (row col : BitVec 32) (s : StringBuf) : Except StringFault StringBuf := do
  let s ← sputAll vtCsi s
  let s ← sputint s row 10
  let s ← sputAll vtSep s
  let s ← sputint s col 10
  sputAll [0x48] s

def sensorFormat (sensorReading : SensorData) (s : StringBuf) : Except StringFault StringBuf :=
  if sensorReading.offset = 0 then .ok s
  else do
    let s ← sputAll blanks s
    let s ← sputc s (BitVec.ofInt 8 (65 + sensorReading.group))
    let s ← sputc s 0x2e
    let s ← sputuint s (BitVec.ofInt 32 sensorReading.offset) 10
    sputAll blanksAndNewline s

/-- The pair of sensors between which a train is timed. -/
structure TimeSensorPair where
  sensor1 : SensorData
  sensor2 : SensorData
  startTime : Int

structure SensorDisplay where
  recentlyRead : Nat
  recentSensors : Nat → SensorData
  timeSensorPair : TimeSensorPair
  controls : Controls

/-- The loop over the ring, from the newest sensor back to the oldest. -/
def displayLoop (d : SensorDisplay) : Nat → Nat → StringBuf → Except StringFault StringBuf
  | 0, _, _ => .error .endless
  | rounds + 1, i, s =>
    if i < numRecentSensors then do
      let s ← sensorFormat (d.recentSensors i) s
      let i := if i = 0 then numRecentSensors - 1 else i - 1
      if i = d.recentlyRead then .ok s else displayLoop d rounds i s
    else .error .outsideBuffer

/-- The string is drawn as it is; `scratch` is what stood in its place before. -/
def updateSensoryDisplay (d : SensorDisplay) (scratch : StringBuf) :
    Except StringFault StringBuf := do
  let s ← sputAll vtCursorSave (sinit scratch)
  let s ← vtPos (vtSensorRow + 1) vtSensorCol s
  let s ← displayLoop d numRecentSensors d.recentlyRead s
  let s ← sputAll vtResetCode s
  sputAll vtCursorRestore s

inductive SensorDisplayFault where
  | string (fault : StringFault)
  | control (fault : ControlFault)

inductive SensorShown where
  | screen (s : StringBuf)
  | timeBetween (sensor1 sensor2 : SensorData) (timeDiff : Int)

def SensorData.is (reading : SensorData) (group offset : Int) : Prop :=
  reading.group = group ∧ reading.offset = offset

instance (reading : SensorData) (group offset : Int) : Decidable (reading.is group offset) :=
  inferInstanceAs (Decidable (_ ∧ _))

/-- The sensor of bit `i`, as group and offset. -/
def groupNumber (replyIndex : Nat) : Int := (replyIndex / 2 : Nat)

def groupOffset (replyIndex i : Nat) : Int := 8 - i + if replyIndex % 2 = 0 then 0 else 8

def SensorDisplay.halts (d : SensorDisplay) (group offset : Int) :
    Except ControlFault Controls :=
  if d.controls.haltReading.is group offset then
    d.controls.trainSetSpeed d.controls.haltTrainNumber 0
  else .ok d.controls

/-- What is shown if a train that is timed has hit one of the sensors. -/
def TimeSensorPair.hit (pair : TimeSensorPair) (group offset now : Int) :
    TimeSensorPair × List SensorShown :=
  let pair := if pair.sensor1.is group offset then { pair with startTime := now } else pair
  (pair, if pair.sensor2.is group offset then
    [.timeBetween pair.sensor1 pair.sensor2 (now - pair.startTime)] else [])

def handleBit (scratch : StringBuf) (now : Int) (replyIndex i : Nat) (d : SensorDisplay) :
    Except SensorDisplayFault (SensorDisplay × List SensorShown) := do
  let group := groupNumber replyIndex
  let offset := groupOffset replyIndex i
  let reading ← (Controls.setSensorData group offset).mapError .control
  let d := { d with recentSensors := update d.recentSensors d.recentlyRead reading }
  let s ← (updateSensoryDisplay d scratch).mapError .string
  let d := { d with recentlyRead := (d.recentlyRead + 1) % numRecentSensors }
  let controls ← (d.halts group offset).mapError .control
  let (timeSensorPair, timed) := d.timeSensorPair.hit group offset now
  .ok ({ d with timeSensorPair, controls }, .screen s :: timed)

/-- The loop over the byte. -/
def handleChar (scratch : Nat → StringBuf) (now : Int) (c : BitVec 8) (replyIndex : Nat) :
    List Nat → SensorDisplay → Except SensorDisplayFault (SensorDisplay × List SensorShown)
  | [], d => .ok (d, [])
  | i :: rest, d =>
    if c.getLsbD i then do
      let (d, shown) ← handleBit (scratch i) now replyIndex i d
      let (d, later) ← handleChar scratch now c replyIndex rest d
      .ok (d, shown ++ later)
    else handleChar scratch now c replyIndex rest d

def initSensor (controls : Controls) : SensorDisplay where
  recentlyRead := 0
  recentSensors := fun _ => ⟨0, 0⟩
  timeSensorPair := ⟨⟨0, 0⟩, ⟨0, 0⟩, 0⟩
  controls := { controls with haltTrainNumber := 0, haltReading := ⟨0, 0⟩ }

/-- A byte from the track, or a halt command from the parser. -/
inductive SensorEvent where
  | byte (c : BitVec 8) (replyIndex : Nat) (now : Int) (scratch : Nat → StringBuf)
  | halt (trainNumber : Int) (sensorGroup : Char) (sensorNumber : Int)

def SensorDisplay.take (d : SensorDisplay) :
    SensorEvent → Except SensorDisplayFault (SensorDisplay × List SensorShown)
  | .byte c replyIndex now scratch => handleChar scratch now c replyIndex (List.range 8) d
  | .halt trainNumber sensorGroup sensorNumber => do
    let controls ←
      (d.controls.sensorHalt trainNumber sensorGroup sensorNumber).mapError .control
    .ok ({ d with controls }, [])

def SensorDisplay.takeAll (d : SensorDisplay) :
    List SensorEvent → Except SensorDisplayFault (SensorDisplay × List SensorShown)
  | [] => .ok (d, [])
  | e :: events => do
    let (d, shown) ← d.take e
    let (d, later) ← d.takeAll events
    .ok (d, shown ++ later)

def Appends (text : List Byte) (put : StringBuf → Except StringFault StringBuf) : Prop :=
  ∀ s l, s.Holds l → l.length + text.length ≤ strMaxLen →
    ∃ s', put s = .ok s' ∧ s'.Holds (l ++ text)

variable {text text' : List Byte} {put put' : StringBuf → Except StringFault StringBuf}

theorem appends_nothing : Appends [] .ok := by
  intro s l hHolds _
  exact ⟨s, rfl, (List.append_nil l).symm ▸ hHolds⟩

theorem Appends.bind (h : Appends text put) (h' : Appends text' put') :
    Appends (text ++ text') fun s => put s >>= put' := by
  intro s l hHolds hRoom
  rw [List.length_append] at hRoom
  obtain ⟨s₁, hPut, hHolds₁⟩ := h s l hHolds (by omega)
  obtain ⟨s', hPut', hHolds'⟩ := h' s₁ _ hHolds₁ (by
    rw [List.length_append]
    omega)
  rw [List.append_assoc] at hHolds'
  refine ⟨s', ?_, hHolds'⟩
  dsimp only
  rw [hPut]
  exact hPut'

theorem appends_sputAll (text : List Byte) : Appends text (sputAll text) :=
  fun _ _ hHolds hRoom => hHolds.sputAll hRoom

theorem appends_sputc (c : Byte) : Appends [c] (sputc · c) :=
  fun _ _ hHolds hRoom => hHolds.sputc hRoom c

theorem appends_sputuint (num : BitVec 32) : Appends (numeralOf 10 num.toNat) (sputuint · num 10) :=
  fun _ _ hHolds hRoom => sputuint_ok 10 num hHolds (by decide) hRoom

theorem appends_sputint (num : BitVec 32) :
    Appends (signedNumeral 10 num.toInt) (sputint · num 10) :=
  fun _ _ hHolds hRoom => sputint_ok 10 num hHolds (by decide) hRoom

def posText (row col : BitVec 32) : List Byte :=
  vtCsi ++ (signedNumeral 10 row.toInt ++ (vtSep ++ (signedNumeral 10 col.toInt ++ [0x48])))

theorem vtPos_appends (row col : BitVec 32) : Appends (posText row col) (vtPos row col) :=
  (appends_sputAll _).bind ((appends_sputint row).bind ((appends_sputAll _).bind
    ((appends_sputint col).bind (appends_sputAll _))))

/-- The line of a sensor; there is none for a place of the ring that has not been used. -/
def sensorLine (reading : SensorData) : List Byte :=
  if reading.offset = 0 then []
  else blanks ++ ([BitVec.ofInt 8 (65 + reading.group)] ++ ([0x2e] ++
    (numeralOf 10 (BitVec.ofInt 32 reading.offset).toNat ++ blanksAndNewline)))

theorem sensorFormat_appends (reading : SensorData) :
    Appends (sensorLine reading) (sensorFormat reading) := by
  have hEq : sensorFormat reading = fun s => sensorFormat reading s := rfl
  rw [hEq]
  simp only [sensorFormat, sensorLine]
  split_ifs
  · exact appends_nothing
  · exact (appends_sputAll _).bind ((appends_sputc _).bind ((appends_sputc _).bind
      ((appends_sputuint _).bind (appends_sputAll _))))

/-! ## The ring -/

def noSensor : SensorData := ⟨0, 0⟩

/-- The hits with the newest first stand before the place that is written next. -/
structure SensorDisplay.Keeps (d : SensorDisplay) (hits : List SensorData) : Prop where
  inRing : d.recentlyRead < 7
  slot : ∀ k < 7, d.recentSensors ((d.recentlyRead + 6 - k) % 7) = hits[k]?.getD noSensor

variable {d : SensorDisplay} {hits : List SensorData} {reading : SensorData}

theorem SensorDisplay.Keeps.write (hKeeps : d.Keeps hits) (reading : SensorData) :
    ∀ k < 7, update d.recentSensors d.recentlyRead reading ((d.recentlyRead + 7 - k) % 7) =
      (reading :: hits)[k]?.getD noSensor := by
  have hRing := hKeeps.inRing
  intro k hk
  cases k with
  | zero =>
    have hHere : (d.recentlyRead + 7 - 0) % 7 = d.recentlyRead := by omega
    rw [hHere, update_self]
    rfl
  | succ k =>
    have hThere : (d.recentlyRead + 7 - (k + 1)) % 7 ≠ d.recentlyRead := by omega
    have hSame : d.recentlyRead + 7 - (k + 1) = d.recentlyRead + 6 - k := by omega
    rw [update_of_ne hThere, hSame]
    exact hKeeps.slot k (by omega)

/-- The place of the ring where hit `k` stands while the newest one has just been written. -/
def SensorDisplay.place (d : SensorDisplay) (k : Nat) : Nat := (d.recentlyRead + 7 - k) % 7

section Loop

variable (hRing : d.recentlyRead < 7)
variable (hSlot : ∀ k < 7, d.recentSensors (d.place k) = hits[k]?.getD noSensor)

include hRing hSlot

theorem displayLoop_round {rounds k : Nat} (hk : k < 7) :
    displayLoop d (rounds + 1) (d.place k) = fun s =>
      sensorFormat (hits[k]?.getD noSensor) s >>= fun s =>
        if d.place (k + 1) = d.recentlyRead then .ok s
        else displayLoop d rounds (d.place (k + 1)) s := by
  have hInside : d.place k < numRecentSensors := Nat.mod_lt _ (by decide)
  have hNext : (if d.place k = 0 then numRecentSensors - 1 else d.place k - 1) =
      d.place (k + 1) := by
    rw [numRecentSensors, SensorDisplay.place, SensorDisplay.place]
    split_ifs <;> omega
  funext s
  rw [displayLoop, if_pos hInside, hSlot k hk]
  simp only [hNext]

/-- From the newest sensor the loop goes once around the ring. -/
theorem displayLoop_appends (rounds k : Nat) (hRounds : k + (rounds + 1) = 7) :
    Appends ((List.range' k (rounds + 1)).flatMap fun k => sensorLine (hits[k]?.getD noSensor))
      (displayLoop d (rounds + 1) (d.place k)) := by
  induction rounds generalizing k with
  | zero =>
    have hBack : d.place (k + 1) = d.recentlyRead := by
      rw [SensorDisplay.place]
      omega
    rw [displayLoop_round hRing hSlot (by omega), List.range'_succ, List.flatMap_cons]
    refine (sensorFormat_appends _).bind ?_
    simp only [if_pos hBack]
    exact appends_nothing
  | succ rounds ih =>
    have hOn : d.place (k + 1) ≠ d.recentlyRead := by
      rw [SensorDisplay.place]
      omega
    rw [displayLoop_round hRing hSlot (by omega), List.range'_succ, List.flatMap_cons]
    refine (sensorFormat_appends _).bind ?_
    simp only [if_neg hOn]
    exact ih (k + 1) (by omega)

end Loop

theorem flatMap_recent (hits : List SensorData) (n : Nat) :
    ((List.range' 0 n).flatMap fun k => sensorLine (hits[k]?.getD noSensor)) =
      (hits.take n).flatMap sensorLine := by
  induction n with
  | zero => rfl
  | succ n ih =>
    rw [List.range'_concat, List.flatMap_append, ih, List.take_add_one, List.flatMap_append,
      List.flatMap_singleton]
    congr 1
    simp only [Nat.zero_add, Nat.one_mul]
    -- a place that has not been used has no line
    cases hits[n]? with
    | none => rfl
    | some reading => exact (List.flatMap_singleton ..).symm

def screenText (hits : List SensorData) : List Byte :=
  vtCursorSave ++ (posText (vtSensorRow + 1) vtSensorCol ++
    ((hits.take 7).flatMap sensorLine ++ (vtResetCode ++ vtCursorRestore)))

def SensorData.InRange (reading : SensorData) : Prop :=
  (0 ≤ reading.group ∧ reading.group ≤ 4) ∧ 1 ≤ reading.offset ∧ reading.offset ≤ 16

theorem length_sensorLine (h : reading.InRange) : (sensorLine reading).length ≤ 18 := by
  obtain ⟨-, hLow, hHigh⟩ := h
  have hNumeral : ∀ n ≤ 16, (numeralOf 10 n).length ≤ 2 := by
    intro n hn
    rw [numeralOf, List.length_map, Library.Positional.numeral]
    split_ifs with hZero
    · decide
    · rw [List.length_reverse]
      exact Nat.digits_length_le_iff (by decide) _ |>.mpr (by omega)
  have hOffset : (BitVec.ofInt 32 reading.offset).toNat ≤ 16 := by
    rw [BitVec.toNat_ofInt]
    omega
  have hDigits := hNumeral _ hOffset
  rw [sensorLine, if_neg (by omega)]
  simp only [List.length_append, blanksAndNewline, blanks, List.length_replicate,
    List.length_cons, List.length_nil]
  omega

theorem length_lines (h : ∀ reading ∈ hits, reading.InRange) :
    (hits.flatMap sensorLine).length ≤ 18 * hits.length := by
  induction hits with
  | nil => exact Nat.zero_le _
  | cons reading hits ih =>
    obtain ⟨hFirst, hRest⟩ := List.forall_mem_cons.mp h
    have hLine := length_sensorLine hFirst
    have hLines := ih hRest
    rw [List.flatMap_cons, List.length_append, List.length_cons]
    omega

theorem length_screenText (h : ∀ reading ∈ hits, reading.InRange) :
    (screenText hits).length ≤ strMaxLen := by
  have hLines := length_lines fun reading hMem => h reading (List.mem_of_mem_take (i := 7) hMem)
  have hSeven := List.length_take_le 7 hits
  have hPos : (posText (vtSensorRow + 1) vtSensorCol).length = 7 := by
    simp [posText, vtSensorRow, vtSensorCol, signedNumeral, numeralOf, Library.Positional.numeral,
      vtCsi, vtSep]
  simp only [screenText, List.length_append, hPos, vtCursorSave, vtResetCode, vtCursorRestore,
    List.length_cons, List.length_nil, strMaxLen]
  omega

theorem updateSensoryDisplay_shows (hRing : d.recentlyRead < 7)
    (hSlot : ∀ k < 7, d.recentSensors (d.place k) = hits[k]?.getD noSensor)
    (hRange : ∀ reading ∈ hits, reading.InRange) (scratch : StringBuf) :
    ∃ s, updateSensoryDisplay d scratch = .ok s ∧ s.bytes = screenText hits := by
  have hNewest : d.place 0 = d.recentlyRead := by
    rw [SensorDisplay.place]
    omega
  have hLoop := displayLoop_appends hRing hSlot 6 0 rfl
  rw [flatMap_recent, hNewest] at hLoop
  have hPos := vtPos_appends (vtSensorRow + 1) vtSensorCol
  have hEnd := (appends_sputAll vtResetCode).bind (appends_sputAll vtCursorRestore)
  have hAll := (appends_sputAll vtCursorSave).bind (hPos.bind (hLoop.bind hEnd))
  obtain ⟨s, hPut, hHolds⟩ := hAll (sinit scratch) [] (.sinit scratch) (by
    rw [List.length_nil, Nat.zero_add]
    exact length_screenText hRange)
  exact ⟨s, hPut, hHolds.bytes_eq⟩

/-- No pair is timed, and the train that is to be halted, if there is one, can be. -/
structure SensorDisplay.Quiet (d : SensorDisplay) : Prop where
  sensor1 : d.timeSensorPair.sensor1.offset = 0
  sensor2 : d.timeSensorPair.sensor2.offset = 0
  haltTrain : d.controls.haltReading.offset = 0 ∨
    0 < d.controls.haltTrainNumber ∧ d.controls.haltTrainNumber < 80

theorem setSensorData_ok {group offset : Int} (h : SensorData.InRange ⟨group, offset⟩) :
    Controls.setSensorData group offset = .ok ⟨group, offset⟩ := by
  obtain ⟨⟨hLow, hHigh⟩, hOffset⟩ := h
  dsimp only at hLow hHigh hOffset
  have hGroup : 0 ≤ group * 1000 ∧ group * 1000 ≤ 4 * 1000 := by omega
  rw [Controls.setSensorData, ensure, ensure, if_pos hGroup, if_pos hOffset]
  rfl

/-- The train is stopped if it has reached its sensor. -/
def speedCommand (haltTrainNumber : Int) (haltReading reading : SensorData) : List Int :=
  if haltReading.is reading.group reading.offset then [0, haltTrainNumber] else []

/-- The rest of the controls that have to do with halting stays. -/
structure Stops (controls : Controls) (readings : List SensorData) (controls' : Controls) :
    Prop where
  sent : controls'.sent = controls.sent ++
    readings.flatMap (speedCommand controls.haltTrainNumber controls.haltReading)
  haltTrainNumber : controls'.haltTrainNumber = controls.haltTrainNumber
  haltReading : controls'.haltReading = controls.haltReading

theorem Stops.trans {controls controls' controls'' : Controls}
    {readings readings' : List SensorData}
    (h : Stops controls readings controls') (h' : Stops controls' readings' controls'') :
    Stops controls (readings ++ readings') controls'' := by
  have hSent := h'.sent
  rw [h.sent, h.haltTrainNumber, h.haltReading, List.append_assoc] at hSent
  exact ⟨by rw [hSent, List.flatMap_append], h'.haltTrainNumber.trans h.haltTrainNumber,
    h'.haltReading.trans h.haltReading⟩

theorem SensorDisplay.Quiet.halts_ok (hQuiet : d.Quiet) (hRange : reading.InRange) :
    ∃ controls, d.halts reading.group reading.offset = .ok controls ∧
      Stops d.controls [reading] controls := by
  have hSingle := List.flatMap_singleton
    (speedCommand d.controls.haltTrainNumber d.controls.haltReading) reading
  rw [SensorDisplay.halts]
  split_ifs with hHalt
  · obtain ⟨-, hOffset⟩ := id hHalt
    obtain ⟨hLow, hHigh⟩ : 0 < d.controls.haltTrainNumber ∧ d.controls.haltTrainNumber < 80 := by
      refine hQuiet.haltTrain.resolve_left ?_
      have hOne := hRange.2.1
      omega
    have hNumber : 1 ≤ d.controls.haltTrainNumber ∧ d.controls.haltTrainNumber ≤ 80 := by omega
    have hSpeed : (0 : Int) ≤ 0 ∧ (0 : Int) ≤ 14 := by decide
    have hIndex : d.controls.haltTrainNumber.toNat < numTrains := by
      rw [numTrains]
      omega
    rw [Controls.trainSetSpeed, ensure, ensure, if_pos hNumber, if_pos hSpeed]
    simp only [bind, Except.bind, dif_pos hIndex]
    refine ⟨_, rfl, ?_, rfl, rfl⟩
    rw [hSingle, speedCommand, if_pos hHalt]
    rfl
  · refine ⟨_, rfl, ?_, rfl, rfl⟩
    rw [hSingle, speedCommand, if_neg hHalt, List.append_nil]

/-- What the parser has checked of a halt command. It lets the train numbers 0 and 80 through. -/
def SensorEvent.Checked : SensorEvent → Prop
  | .byte _ replyIndex _ _ => replyIndex < 10
  | .halt trainNumber sensorGroup sensorNumber => (0 ≤ trainNumber ∧ trainNumber ≤ 80) ∧
    ('a' ≤ sensorGroup ∧ sensorGroup ≤ 'e') ∧ 1 ≤ sensorNumber ∧ sensorNumber ≤ 16

/-- What `sensorHalt` asserts of the train number. -/
def SensorEvent.namesTrain : SensorEvent → Bool
  | .byte .. => true
  | .halt trainNumber _ _ => 0 < trainNumber ∧ trainNumber < 80

def triggered (replyIndex i : Nat) : SensorData :=
  ⟨groupNumber replyIndex, groupOffset replyIndex i⟩

theorem triggered_inRange {replyIndex i : Nat} (hReply : replyIndex < 10) (hi : i < 8) :
    (triggered replyIndex i).InRange := by
  simp only [SensorData.InRange, triggered, groupNumber, groupOffset]
  split_ifs <;> omega

/-- The state after some hits, the newest first. -/
structure SensorDisplay.Follows (d : SensorDisplay) (hits : List SensorData) : Prop where
  keeps : d.Keeps hits
  range : ∀ reading ∈ hits, reading.InRange
  quiet : d.Quiet

theorem TimeSensorPair.hit_quiet {pair : TimeSensorPair} (h₁ : pair.sensor1.offset = 0)
    (h₂ : pair.sensor2.offset = 0) (hRange : reading.InRange) (now : Int) :
    pair.hit reading.group reading.offset now = (pair, []) := by
  have hOne := hRange.2.1
  have hNot₁ : ¬pair.sensor1.is reading.group reading.offset := by
    rintro ⟨-, hOffset⟩
    omega
  have hNot₂ : ¬pair.sensor2.is reading.group reading.offset := by
    rintro ⟨-, hOffset⟩
    omega
  rw [TimeSensorPair.hit, if_neg hNot₁, if_neg hNot₂]

theorem SensorDisplay.Follows.hit (h : d.Follows hits) {replyIndex i : Nat}
    (hRange : (triggered replyIndex i).InRange) (scratch : StringBuf) (now : Int) :
    ∃ d' s, handleBit scratch now replyIndex i d = .ok (d', [.screen s]) ∧
      s.bytes = screenText (triggered replyIndex i :: hits) ∧
      d'.Follows (triggered replyIndex i :: hits) ∧
      Stops d.controls [triggered replyIndex i] d'.controls := by
  have hRange' := List.forall_mem_cons.mpr ⟨hRange, h.range⟩
  have hSlot := h.keeps.write (triggered replyIndex i)
  have hRing := h.keeps.inRing
  have hSet : Controls.setSensorData (groupNumber replyIndex) (groupOffset replyIndex i) =
      .ok (triggered replyIndex i) := setSensorData_ok hRange
  let written : SensorDisplay := { d with
    recentSensors := update d.recentSensors d.recentlyRead (triggered replyIndex i) }
  obtain ⟨s, hShow, hBytes⟩ := updateSensoryDisplay_shows (d := written) hRing hSlot hRange' scratch
  obtain ⟨controls, hHalts, hStops⟩ := h.quiet.halts_ok hRange
  have hTimed := TimeSensorPair.hit_quiet h.quiet.sensor1 h.quiet.sensor2 hRange now
  refine ⟨⟨(d.recentlyRead + 1) % 7, written.recentSensors, d.timeSensorPair, controls⟩, s, ?_,
    hBytes, ⟨⟨Nat.mod_lt _ (by decide), ?_⟩, hRange', ⟨h.quiet.sensor1, h.quiet.sensor2, ?_⟩⟩,
    hStops⟩
  · have hHalts : d.halts (groupNumber replyIndex) (groupOffset replyIndex i) =
      .ok controls := hHalts
    have hTimed : d.timeSensorPair.hit (groupNumber replyIndex) (groupOffset replyIndex i) now =
      (d.timeSensorPair, []) := hTimed
    rw [handleBit, hSet]
    change ((updateSensoryDisplay written scratch).mapError _ >>= fun s =>
      (d.halts (groupNumber replyIndex) (groupOffset replyIndex i)).mapError _ >>=
        fun controls => _) = _
    rw [hShow, hHalts]
    change (match d.timeSensorPair.hit (groupNumber replyIndex) (groupOffset replyIndex i) now with
      | (timeSensorPair, timed) => _) = _
    rw [hTimed]
    rfl
  · intro k hk
    dsimp only
    have hPlace : ((d.recentlyRead + 1) % 7 + 6 - k) % 7 = (d.recentlyRead + 7 - k) % 7 := by omega
    rw [hPlace]
    exact hSlot k hk
  · dsimp only
    rw [hStops.haltTrainNumber, hStops.haltReading]
    exact h.quiet.haltTrain

/-! ## Bytes and commands -/

/-- The sensors of a byte, in the order in which the loop comes to them. -/
def triggersOf (c : BitVec 8) (replyIndex : Nat) (is : List Nat) : List SensorData :=
  (is.filter fun i => c.getLsbD i).map (triggered replyIndex)

def SensorEvent.triggers : SensorEvent → List SensorData
  | .byte c replyIndex _ _ => triggersOf c replyIndex (List.range 8)
  | .halt _ _ _ => []

/-- What is drawn for one trigger after the other. -/
def screens : List SensorData → List SensorData → List (List Byte)
  | _, [] => []
  | hits, reading :: rest => screenText (reading :: hits) :: screens (reading :: hits) rest

/-- The trains that are stopped: each trigger of the sensor of the last halt command stops its
train. -/
def speedCommands : Int → SensorData → List SensorEvent → List Int
  | _, _, [] => []
  | haltTrainNumber, haltReading, .byte c replyIndex now scratch :: events =>
    (SensorEvent.byte c replyIndex now scratch).triggers.flatMap
      (speedCommand haltTrainNumber haltReading) ++
        speedCommands haltTrainNumber haltReading events
  | _, _, .halt trainNumber sensorGroup sensorNumber :: events =>
    speedCommands trainNumber ⟨sensorGroup.toNat - 'a'.toNat, sensorNumber⟩ events

def SensorShown.drawn : SensorShown → Option (List Byte)
  | screen s => some s.bytes
  | timeBetween _ _ _ => none

theorem screens_append (hits first later : List SensorData) :
    screens hits (first ++ later) =
      screens hits first ++ screens (first.reverse ++ hits) later := by
  induction first generalizing hits with
  | nil => rfl
  | cons reading first ih =>
    rw [List.cons_append, screens, screens, ih, List.reverse_cons, List.append_assoc]
    rfl

theorem SensorDisplay.Follows.byte (h : d.Follows hits) {replyIndex : Nat}
    (hReply : replyIndex < 10) (c : BitVec 8) (now : Int) (scratch : Nat → StringBuf)
    (is : List Nat) (his : ∀ i ∈ is, i < 8) :
    ∃ d' shown, handleChar scratch now c replyIndex is d = .ok (d', shown) ∧
      shown.map SensorShown.drawn = (screens hits (triggersOf c replyIndex is)).map some ∧
      d'.Follows ((triggersOf c replyIndex is).reverse ++ hits) ∧
      Stops d.controls (triggersOf c replyIndex is) d'.controls := by
  induction is generalizing d hits with
  | nil => exact ⟨d, [], rfl, rfl, h, (List.append_nil _).symm, rfl, rfl⟩
  | cons i is ih =>
    obtain ⟨hi, hRest⟩ := List.forall_mem_cons.mp his
    rw [handleChar, triggersOf, List.filter_cons]
    split_ifs with hBit
    · obtain ⟨d₁, s, hHit, hBytes, hFollows₁, hStops₁⟩ :=
        h.hit (triggered_inRange hReply hi) (scratch i) now
      obtain ⟨d', shown, hLoop, hShown, hFollows, hStops⟩ := ih hFollows₁ hRest
      refine ⟨d', .screen s :: shown, ?_, ?_, ?_, hStops₁.trans hStops⟩
      · rw [hHit]
        change (handleChar scratch now c replyIndex is d₁ >>= fun r => _) = _
        rw [hLoop]
        rfl
      · rw [List.map_cons, hShown, SensorShown.drawn, hBytes]
        rfl
      · rw [List.map_cons, List.reverse_cons, List.append_assoc]
        exact hFollows
    · exact ih h hRest

theorem sensorHalt_ok (controls : Controls) {trainNumber sensorNumber : Int} {sensorGroup : Char}
    (hTrain : 0 < trainNumber ∧ trainNumber < 80) (hGroup : 'a' ≤ sensorGroup ∧ sensorGroup ≤ 'e')
    (hNumber : 1 ≤ sensorNumber ∧ sensorNumber ≤ 16) :
    controls.sensorHalt trainNumber sensorGroup sensorNumber = .ok { controls with
      haltTrainNumber := trainNumber
      haltReading := ⟨sensorGroup.toNat - 'a'.toNat, sensorNumber⟩ } := by
  have hRange : SensorData.InRange ⟨sensorGroup.toNat - 'a'.toNat, sensorNumber⟩ := by
    have hLow : 'a'.toNat ≤ sensorGroup.toNat := hGroup.1
    have hHigh : sensorGroup.toNat ≤ 'e'.toNat := hGroup.2
    have hWidth : 'e'.toNat = 'a'.toNat + 4 := rfl
    refine ⟨?_, hNumber⟩
    dsimp only
    omega
  rw [Controls.sensorHalt, ensure, ensure, ensure, if_pos hTrain, if_pos hGroup, if_pos hNumber]
  change (Controls.setSensorData (sensorGroup.toNat - 'a'.toNat) sensorNumber >>= fun r => _) = _
  rw [setSensorData_ok hRange]
  rfl

theorem SensorDisplay.Follows.takeAll (h : d.Follows hits) {events : List SensorEvent}
    (hChecked : ∀ e ∈ events, e.Checked) (hNames : ∀ e ∈ events, e.namesTrain = true) :
    ∃ d' shown, d.takeAll events = .ok (d', shown) ∧
      shown.map SensorShown.drawn =
        (screens hits (events.flatMap SensorEvent.triggers)).map some ∧
      d'.controls.sent = d.controls.sent ++
        speedCommands d.controls.haltTrainNumber d.controls.haltReading events := by
  induction events generalizing d hits with
  | nil => exact ⟨d, [], rfl, rfl, (List.append_nil _).symm⟩
  | cons e events ih =>
    obtain ⟨hFirst, hRest⟩ := List.forall_mem_cons.mp hChecked
    obtain ⟨hName, hNamesRest⟩ := List.forall_mem_cons.mp hNames
    rw [SensorDisplay.takeAll, List.flatMap_cons, screens_append, List.map_append]
    cases e with
    | byte c replyIndex now scratch =>
      obtain ⟨d₁, shown, hTake, hShown, hFollows, hStops⟩ :=
        h.byte hFirst c now scratch (List.range 8) fun i => List.mem_range.mp
      obtain ⟨d', later, hAll, hLater, hSent⟩ := ih hFollows hRest hNamesRest
      refine ⟨d', shown ++ later, ?_, ?_, ?_⟩
      · rw [SensorDisplay.take, hTake]
        change (d₁.takeAll events >>= fun r => _) = _
        rw [hAll]
        rfl
      · rw [List.map_append, hShown, hLater]
        rfl
      · rw [hSent, hStops.sent, hStops.haltTrainNumber, hStops.haltReading, List.append_assoc]
        rfl
    | halt trainNumber sensorGroup sensorNumber =>
      obtain ⟨-, hGroup, hNumber⟩ := hFirst
      have hTrain : 0 < trainNumber ∧ trainNumber < 80 := of_decide_eq_true hName
      have hHalt := sensorHalt_ok d.controls hTrain hGroup hNumber
      have hFollows : SensorDisplay.Follows { d with controls := { d.controls with
          haltTrainNumber := trainNumber
          haltReading := ⟨sensorGroup.toNat - 'a'.toNat, sensorNumber⟩ } } hits :=
        ⟨⟨h.keeps.inRing, h.keeps.slot⟩, h.range,
          ⟨h.quiet.sensor1, h.quiet.sensor2, .inr hTrain⟩⟩
      obtain ⟨d', later, hAll, hLater, hSent⟩ := ih hFollows hRest hNamesRest
      refine ⟨d', later, ?_, hLater, hSent⟩
      rw [SensorDisplay.take, hHalt]
      change (SensorDisplay.takeAll _ events >>= fun r => _) = _
      rw [hAll]
      rfl

theorem takeAll_fails {d' : SensorDisplay} {shown : List SensorShown} {fault : SensorDisplayFault}
    {events later : List SensorEvent} {e : SensorEvent} (hAll : d.takeAll events = .ok (d', shown))
    (hTake : d'.take e = .error fault) : d.takeAll (events ++ e :: later) = .error fault := by
  induction events generalizing d shown with
  | nil =>
    obtain ⟨rfl, -⟩ := Prod.mk.inj (Except.ok.inj hAll)
    rw [List.nil_append, SensorDisplay.takeAll, hTake]
    rfl
  | cons e' events ih =>
    obtain ⟨⟨d₁, first⟩, hFirst, hRest⟩ := exists_of_bind_eq_ok hAll
    obtain ⟨⟨d₂, rest⟩, hLater, hEq⟩ := exists_of_bind_eq_ok hRest
    obtain ⟨rfl, -⟩ := Prod.mk.inj (Except.ok.inj hEq)
    rw [List.cons_append, SensorDisplay.takeAll, hFirst]
    change (d₁.takeAll (events ++ e :: later) >>= fun r => _) = _
    rw [ih hLater]
    rfl

theorem take_no_train {e : SensorEvent} (hNone : e.namesTrain = false) :
    d.take e = .error (.control .assertion) := by
  cases e with
  | byte => cases hNone
  | halt trainNumber sensorGroup sensorNumber =>
    rw [SensorDisplay.take, Controls.sensorHalt, ensure, if_neg (of_decide_eq_false hNone)]
    rfl

/-- As long as the halt commands name trains, for bytes and halt commands in any order none of the
assertions fails, each trigger draws the seven last sensors with the newest first, and it stops the
train that is to be halted there. The first command that names none fails the assertion. -/
theorem recent_sensors_shown (controls : Controls) (events : List SensorEvent)
    (hChecked : ∀ e ∈ events, e.Checked) :
    ∃ d shown, (initSensor controls).takeAll (events.takeWhile SensorEvent.namesTrain)
        = .ok (d, shown) ∧
      shown.map SensorShown.drawn = (screens []
        ((events.takeWhile SensorEvent.namesTrain).flatMap SensorEvent.triggers)).map some ∧
      d.controls.sent = controls.sent ++
        speedCommands 0 noSensor (events.takeWhile SensorEvent.namesTrain) ∧
      (initSensor controls).takeAll events =
        if events.all SensorEvent.namesTrain then .ok (d, shown)
        else .error (.control .assertion) := by
  have hFollows : (initSensor controls).Follows [] :=
    ⟨⟨Nat.zero_lt_succ 6, fun k _ => rfl⟩, List.forall_mem_nil _, ⟨rfl, rfl, .inl rfl⟩⟩
  obtain ⟨d, shown, hAll, hShown, hSent⟩ := hFollows.takeAll
    (fun e hMem => hChecked e ((List.takeWhile_prefix _).subset hMem))
    fun e hMem => List.mem_takeWhile_imp hMem
  refine ⟨d, shown, hAll, hShown, hSent, ?_⟩
  have hSplit := List.takeWhile_append_dropWhile (p := SensorEvent.namesTrain) (l := events)
  cases hRest : events.dropWhile SensorEvent.namesTrain with
  | nil =>
    rw [hRest, List.append_nil] at hSplit
    rw [hSplit] at hAll
    rw [if_pos (List.all_eq_true.mpr (List.dropWhile_eq_nil_iff.mp hRest)), hAll]
  | cons e later =>
    have hNone : e.namesTrain = false := by
      have hHead := List.head?_dropWhile_not SensorEvent.namesTrain events
      rw [hRest] at hHead
      simpa using hHead
    rw [if_neg, ← hSplit, hRest]
    · exact takeAll_fails hAll (take_no_train hNone)
    · intro hEvery
      rw [List.dropWhile_eq_nil_iff.mpr (List.all_eq_true.mp hEvery)] at hRest
      cases hRest

/-- Train 45 is stopped at the second of two sensors, and there is no train 80. -/
theorem recent_sensors_shown_halted : ∃ d shown, (initSensor idleControls).takeAll
      [.byte 0x80 0 5 fun _ => ⟨0, fun _ => 0⟩, .halt 45 'b' 3,
        .byte 0x20 2 7 fun _ => ⟨0, fun _ => 0⟩] = .ok (d, shown) ∧
    shown.map SensorShown.drawn = (screens [] [⟨0, 1⟩, ⟨1, 3⟩]).map some ∧
    d.controls.sent = [0, 45] ∧
    (initSensor idleControls).takeAll
      [.byte 0x80 0 5 fun _ => ⟨0, fun _ => 0⟩, .halt 45 'b' 3,
        .byte 0x20 2 7 fun _ => ⟨0, fun _ => 0⟩, .halt 80 'a' 1]
      = .error (.control .assertion) := by
  refine recent_sensors_shown idleControls [.byte 0x80 0 5 fun _ => ⟨0, fun _ => 0⟩,
    .halt 45 'b' 3, .byte 0x20 2 7 fun _ => ⟨0, fun _ => 0⟩, .halt 80 'a' 1]
    (List.forall_mem_cons.mpr ⟨?_, ?_⟩)
  · exact Nat.zero_lt_succ 9
  · refine List.forall_mem_cons.mpr ⟨⟨by decide, by decide, by decide⟩, ?_⟩
    refine List.forall_mem_cons.mpr ⟨(by decide : 2 < 10), ?_⟩
    exact List.forall_mem_singleton.mpr ⟨by decide, by decide, by decide⟩

end TrainKernel.User
