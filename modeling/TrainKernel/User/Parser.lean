import TrainKernel.Library.Int32
import TrainKernel.Library.LineForms
import TrainKernel.User.SensorServer

/-!
# The parser

A machine with a state for each place in a command. It takes a line one character at a time, and
the carriage return has the command carried out that the line leads to.
-/

namespace TrainKernel.User

open Library.Int32 Library.LineForms

structure EngineerInfo where
  tid : Int
  trainNumber : Int

/-- The entries in use. A task with another tid could not have answered its first message. -/
structure Engineers where
  infos : List EngineerInfo
  length_le : infos.length ≤ maxNumEngineer
  tid_pos : ∀ info ∈ infos, 0 < info.tid

def noEngineers : Engineers := ⟨[], Nat.zero_le _, List.forall_mem_nil _⟩

/-- `engineers[indexFromTrainNumber(trainNumber)].tid`, if there is one. -/
def Engineers.tidOf (engineers : Engineers) (trainNumber : Int) : Option Int :=
  (engineers.infos.find? (·.trainNumber = trainNumber)).map EngineerInfo.tid

/-- The table with the new engineer, who was spawned as `tid`; nothing if there is no room or the
train has one. -/
def engineerCreate (engineers : Engineers) (tid : {tid : Int // 0 < tid}) (trainNumber : Int) :
    Option Engineers :=
  if h : engineers.infos.length = maxNumEngineer then none
  else if (engineers.tidOf trainNumber).isSome then none
  else
    some {
      infos := engineers.infos ++ [⟨tid, trainNumber⟩]
      length_le := by
        rw [List.length_append]
        exact Nat.lt_of_le_of_ne engineers.length_le h
      tid_pos := by
        intro info hMem
        cases List.mem_append.mp hMem with
        | inl hOld => exact engineers.tid_pos info hOld
        | inr hNew => exact List.mem_singleton.mp hNew ▸ tid.property }

inductive ParserState where
  | error
  | empty
  | trT
  | trR
  | trSpace1
  | trTrainNumber
  | trSpace2
  | trSpeed
  | rvR
  | rvV
  | rvSpace
  | rvTrainNumber
  | swS
  | swW
  | swSpace1
  | swTurnoutNumber
  | swSpace2
  | swTurnoutDir
  | hH
  | hSpace1
  | hTrainNumber
  | hSpace2
  | hSensorGroup
  | hSpace3
  | hSensorNumber
  | qQ
  | p
  | dbTask
  | e
  | eSpace1
  | eTrainNumber
  | eSpace2
  | eSensorIndex
  | help
  | c
  | cSpace1
  | cTrainNumber
  | cSpace2
  | cTrainSpeed
  | cSpace3
  | cSensorGroup
  | cSpace4
  | cSensorNumber
  | cSpace5
  | cLoops
  | zero
  | k
  | kSpace
  | kWhichTrack
  | x
  | xSpace1
  | xNodeNumber
  | xSpace2
  | xDistance
  | g
  | go
  | go_
  | goT
  | goT_
  | goTN
deriving DecidableEq, Repr

/-- The integers of the union. Only those of one command are in use at a time. -/
inductive NumberField where
  | speedTrainNumber
  | speedTrainSpeed
  | turnoutNumber
  | reverseTrainNumber
  | sensorHaltTrainNumber
  | sensorHaltSensorNumber
  | engineerTrainNumber
  | engineerSensorIndex
  | calibrationTrainNumber
  | calibrationTrainSpeed
  | calibrationSensorNumber
  | calibrationNumLoops
  | xMarksTheSpotNodeNumber
  | xMarksTheSpotDistance
  | goTrainNumber
  | goNodeNumber
deriving DecidableEq, Repr

/-- The characters of the union. -/
inductive LetterField where
  | turnoutDirection
  | sensorHaltSensorGroup
  | calibrationSensorGroup
  | whichTrack
deriving DecidableEq, Repr

abbrev ParserData := Fields NumberField LetterField Int

@[ext]
structure Parser where
  state : ParserState
  data : ParserData

/-- `REQUIRE`: `ch` leads to `succ`, any other character to an error. -/
def require (p : Parser) (c ch : Char) (succ : ParserState) : Parser :=
  { p with state := if c = ch then succ else .error }

/-- The number and whether the character was a digit. -/
def appendNumber (c : Char) (num : Int) : Int × Bool :=
  if c.isDigit then (wrap32 (10 * num + (c.toNat - '0'.toNat)), true) else (num, false)

/-- The first digit of a number. -/
def startNumber (p : Parser) (c : Char) (field : NumberField) (succ : ParserState) : Parser :=
  let (num, appended) := appendNumber c 0
  ⟨if appended then succ else .error, p.data.setNumber field num⟩

def continueNumber (p : Parser) (c : Char) (field : NumberField) (otherwise : Parser) : Parser :=
  let (num, appended) := appendNumber c (p.data.numbers field)
  if appended then { p with data := p.data.setNumber field num } else otherwise

def storeLetter (p : Parser) (c : Char) (field : LetterField) (allowed : Bool)
    (succ : ParserState) : Parser :=
  if allowed then ⟨succ, p.data.setLetter field c⟩ else { p with state := .error }

def isSensorGroup (c : Char) : Bool := 'a' ≤ c ∧ c ≤ 'e'

def isTrack (c : Char) : Bool := 'a' ≤ c ∧ c ≤ 'b'

def isDirection (c : Char) : Bool := c = 'c' ∨ c = 's'

def firstState : Char → ParserState
  | 'g' => .g
  | 't' => .trT
  | 'r' => .rvR
  | 's' => .swS
  | 'q' => .qQ
  | 'd' => .dbTask
  | 'h' => .hH
  | 'p' => .p
  | 'e' => .e
  | 'c' => .c
  | 'k' => .k
  | 'x' => .x
  | '?' => .help
  | _ => .error

def toError (p : Parser) : Parser := { p with state := .error }

/-- The `switch` on the state, for a character in lower case. -/
def nextState (p : Parser) (c : Char) : Parser :=
  match p.state with
  | .empty => { p with state := firstState c }
  | .g => require p c 'o' .go
  | .go => require p c ' ' .go_
  | .go_ => startNumber p c .goTrainNumber .goT
  | .goT => continueNumber p c .goTrainNumber (require p c ' ' .goT_)
  | .goT_ => startNumber p c .goNodeNumber .goTN
  | .goTN => continueNumber p c .goNodeNumber (toError p)
  | .x => require p c ' ' .xSpace1
  | .xSpace1 => startNumber p c .xMarksTheSpotNodeNumber .xNodeNumber
  | .xNodeNumber => continueNumber p c .xMarksTheSpotNodeNumber (require p c ' ' .xSpace2)
  | .xSpace2 => startNumber p c .xMarksTheSpotDistance .xDistance
  | .xDistance => continueNumber p c .xMarksTheSpotDistance (toError p)
  | .k => require p c ' ' .kSpace
  | .kSpace => storeLetter p c .whichTrack (isTrack c) .kWhichTrack
  | .kWhichTrack => toError p
  | .c => require p c ' ' .cSpace1
  | .cSpace1 => startNumber p c .calibrationTrainNumber .cTrainNumber
  | .cTrainNumber => continueNumber p c .calibrationTrainNumber (require p c ' ' .cSpace2)
  | .cSpace2 => startNumber p c .calibrationTrainSpeed .cTrainSpeed
  | .cTrainSpeed => continueNumber p c .calibrationTrainSpeed (require p c ' ' .cSpace3)
  | .cSpace3 => storeLetter p c .calibrationSensorGroup (isSensorGroup c) .cSensorGroup
  | .cSensorGroup => require p c ' ' .cSpace4
  | .cSpace4 => startNumber p c .calibrationSensorNumber .cSensorNumber
  | .cSensorNumber => continueNumber p c .calibrationSensorNumber (require p c ' ' .cSpace5)
  | .cSpace5 => startNumber p c .calibrationNumLoops .cLoops
  | .cLoops => continueNumber p c .calibrationNumLoops (toError p)
  | .hH => require p c ' ' .hSpace1
  | .hSpace1 => startNumber p c .sensorHaltTrainNumber .hTrainNumber
  | .hTrainNumber => continueNumber p c .sensorHaltTrainNumber (require p c ' ' .hSpace2)
  | .hSpace2 => storeLetter p c .sensorHaltSensorGroup (isSensorGroup c) .hSensorGroup
  | .hSensorGroup => require p c ' ' .hSpace3
  | .hSpace3 => startNumber p c .sensorHaltSensorNumber .hSensorNumber
  | .hSensorNumber => continueNumber p c .sensorHaltSensorNumber (toError p)
  | .trT => require p c 'r' .trR
  | .trR => require p c ' ' .trSpace1
  | .trSpace1 => startNumber p c .speedTrainNumber .trTrainNumber
  | .trTrainNumber => continueNumber p c .speedTrainNumber (require p c ' ' .trSpace2)
  | .trSpace2 => startNumber p c .speedTrainSpeed .trSpeed
  | .trSpeed => continueNumber p c .speedTrainSpeed (toError p)
  | .rvR => require p c 'v' .rvV
  | .rvV => require p c ' ' .rvSpace
  | .rvSpace => startNumber p c .reverseTrainNumber .rvTrainNumber
  | .rvTrainNumber => continueNumber p c .reverseTrainNumber (toError p)
  | .swS => require p c 'w' .swW
  | .swW => require p c ' ' .swSpace1
  | .swSpace1 => startNumber p c .turnoutNumber .swTurnoutNumber
  | .swTurnoutNumber => continueNumber p c .turnoutNumber (require p c ' ' .swSpace2)
  | .swSpace2 => storeLetter p c .turnoutDirection (isDirection c) .swTurnoutDir
  | .swTurnoutDir => toError p
  | .qQ => toError p
  | .e => require p c ' ' .eSpace1
  | .eSpace1 => startNumber p c .engineerTrainNumber .eTrainNumber
  | .eTrainNumber => continueNumber p c .engineerTrainNumber (require p c ' ' .eSpace2)
  | .eSpace2 => startNumber p c .engineerSensorIndex .eSensorIndex
  | .eSensorIndex => continueNumber p c .engineerSensorIndex (toError p)
  | .dbTask => toError p
  | _ => p

/-- What the parser calls, with its arguments. -/
inductive ParserCall where
  | engineerGo (tid index : Int)
  | sensorHalt (trainNumber : Int) (sensorGroup : Char) (sensorNumber : Int)
  | engineerSetSpeed (tid speed : Int)
  | trainSetSpeed (trainNumber trainSpeed : Int)
  | engineerSetReverse (tid : Int)
  | trainSetReverse (trainNumber : Int)
  | setTurnout (turnoutNumber : Int) (direction : Char)
  | taskDisplayAll
  | drawTrackLayoutGraph (track : Char)
  | printCalibrationLoop (i : Nat)
  | delay (ticks : Nat)
  | engineerCreate (trainNumber sensorIndex : Int)
  | engineerXMarksTheSpot (tid index offset : Int)
  | loadTrackStructure (track : Char)
deriving DecidableEq, Repr

/-- `run` is false after a quit command. -/
structure Response where
  run : Bool
  message : String
  calls : List ParserCall
deriving DecidableEq, Repr

def helpMessage : String :=
  "------------------ Trains commands\r\n" ++
  "tr train_num speed                 | set TRain speed\r\n" ++
  "rv train_num                       | ReVerse train\r\n" ++
  "sw train_num direction             | SWitch a turnout\r\n" ++
  "e train_num sensorIndex            | Engineer for train, given his node\r\n" ++
  "h train_num group_char sensor_num  | Halts on sensor \r\n" ++
  "c tr_num speed char num loops      | Calibration: at speed delay loop\r\n" ++
  "k track_A_or_B_char                | load tracK A or B\r\n" ++
  "x track_node_index distance        | x mark the track node\r\n" ++
  "go train_num track_node_index      | \r\n" ++
  "------------------ Misc. commands\r\n" ++
  "q                                  | Quit\r\n" ++
  "o                                  | redraw turnOuts\r\n" ++
  "p                                  | Print track\r\n" ++
  "d                                  | Debug tasks\r\n" ++
  "?                                  | help?\r\n"

def goCommand (engineers : Engineers) (trainNumber nodeNumber : Int) : Response :=
  if 1 ≤ trainNumber ∧ trainNumber ≤ 80 ∧ 0 ≤ nodeNumber ∧ nodeNumber ≤ 143 then
    match engineers.tidOf trainNumber with
    | some tid => ⟨true, "go command\r\n", [.engineerGo tid nodeNumber]⟩
    | none => ⟨true, "GO: that engineer is not found\r\n", []⟩
  else ⟨true, "GO: bad train number or node number\r\n", []⟩

def hCommand (trainNumber : Int) (sensorGroup : Char) (sensorNumber : Int) : Response :=
  if trainNumber < 0 ∨ 80 < trainNumber then
    ⟨true, "H: bad train_number expects 0 to 80\r\n", []⟩
  else if sensorGroup < 'a' ∨ 'e' < sensorGroup then
    ⟨true, "H: bad sensor_group char, expects 'a' to 'e'\r\n", []⟩
  else if sensorNumber < 1 ∨ 16 < sensorNumber then
    ⟨true, "H: bad sensor_number, expects 1 to 16\r\n", []⟩
  else ⟨true, "", [.sensorHalt trainNumber sensorGroup sensorNumber]⟩

def trCommand (engineers : Engineers) (trainNumber trainSpeed : Int) : Response :=
  if (1 ≤ trainNumber ∧ trainNumber ≤ 80) ∧ (0 ≤ trainSpeed ∧ trainSpeed ≤ 14) then
    match engineers.tidOf trainNumber with
    | some tid => ⟨true, "", [.engineerSetSpeed tid trainSpeed]⟩
    | none => ⟨true, "", [.trainSetSpeed trainNumber trainSpeed]⟩
  else ⟨true, "TR: bad train_number or train_speed\r\n", []⟩

def rvCommand (engineers : Engineers) (trainNumber : Int) : Response :=
  if 1 ≤ trainNumber ∧ trainNumber ≤ 80 then
    match engineers.tidOf trainNumber with
    | some tid => ⟨true, "", [.engineerSetReverse tid]⟩
    | none => ⟨true, "", [.trainSetReverse trainNumber]⟩
  else ⟨true, "RV: bad train_number\r\n", []⟩

def swCommand (turnoutNumber : Int) (direction : Char) : Response :=
  if (1 ≤ turnoutNumber ∧ turnoutNumber ≤ 18) ∨ (153 ≤ turnoutNumber ∧ turnoutNumber ≤ 156) then
    ⟨true, "turnout changing\r\n", [.setTurnout turnoutNumber direction]⟩
  else ⟨true, "SW: bad turnout_number\r\n", []⟩

def eCommand (trainNumber sensorIndex : Int) : Response :=
  if trainNumber < 1 ∨ trainNumber > 80 then
    ⟨true, "Error bad trainNumber " ++ toString trainNumber ++ "\r\n", []⟩
  else if sensorIndex < 0 ∨ sensorIndex ≥ 80 then
    ⟨true, "Error bad sensorIndex " ++ toString sensorIndex ++ "\r\n", []⟩
  else
    ⟨true, "Create engineer for " ++ toString trainNumber ++ " with initial sensor " ++
      toString sensorIndex ++ "\r\n", [.engineerCreate trainNumber sensorIndex]⟩

/-- The first engineer gets the spot. -/
def xCommand (engineers : Engineers) (nodeNumber distance : Int) : Response :=
  if 0 ≤ nodeNumber ∧ nodeNumber ≤ 139 ∧ 0 ≤ distance ∧ distance ≤ 875 then
    match engineers.infos with
    | [] => ⟨true, "Error: engineer server not created", []⟩
    | info :: _ => ⟨true, "", [.engineerXMarksTheSpot info.tid nodeNumber distance]⟩
  else
    ⟨true, "Error: XMarksTheSpot expects node number " ++ toString nodeNumber ++
      " between 0-139 and distance " ++ toString distance ++ " between 0 to 875\r\n", []⟩

def cCommand (trainNumber trainSpeed : Int) (sensorGroup : Char)
    (sensorNumber numLoops : Int) : Response :=
  if (1 ≤ trainNumber ∧ trainNumber ≤ 80) ∧ (0 ≤ trainSpeed ∧ trainSpeed ≤ 14) ∧
      ('a' ≤ sensorGroup ∧ sensorGroup ≤ 'e') ∧ (1 ≤ sensorNumber ∧ sensorNumber ≤ 16) ∧
      (1 ≤ numLoops ∧ numLoops ≤ 20) then
    let loop := [ParserCall.trainSetSpeed trainNumber trainSpeed, .delay 2000]
    ⟨true, "", .sensorHalt trainNumber sensorGroup sensorNumber ::
      (List.replicate numLoops.toNat loop).flatten⟩
  else
    ⟨true, "Bad calibration command: " ++ toString trainNumber ++ " " ++ toString trainSpeed ++
      " " ++ sensorGroup.toString ++ " " ++ toString sensorNumber ++ " " ++ toString numLoops ++
      "\r\n", []⟩

/-- After `c` alone. -/
def calibrationDelays : Response :=
  ⟨true, "Running calibration! Warning: parser stops working.\r\n",
    (List.range 5).flatMap fun i => [.printCalibrationLoop i, .delay 500]⟩

def notRecognized : Response := ⟨true, "Command not recognized!\r\n", []⟩

/-- The `switch` on the state at the end of a line. -/
def carryOut (engineers : Engineers) (p : Parser) : Response :=
  match p.state with
  | .goTN => goCommand engineers (p.data.numbers .goTrainNumber) (p.data.numbers .goNodeNumber)
  | .hSensorNumber =>
    hCommand (p.data.numbers .sensorHaltTrainNumber) (p.data.letters .sensorHaltSensorGroup)
      (p.data.numbers .sensorHaltSensorNumber)
  | .trSpeed =>
    trCommand engineers (p.data.numbers .speedTrainNumber) (p.data.numbers .speedTrainSpeed)
  | .rvTrainNumber => rvCommand engineers (p.data.numbers .reverseTrainNumber)
  | .swTurnoutDir =>
    swCommand (p.data.numbers .turnoutNumber) (p.data.letters .turnoutDirection)
  | .qQ => ⟨false, "Quit\r\n", []⟩
  | .dbTask => ⟨true, "Debug task!\r\n", [.taskDisplayAll]⟩
  | .p => ⟨true, "Drawing track A!\r\n", [.drawTrackLayoutGraph 'a']⟩
  | .c => calibrationDelays
  | .eSensorIndex =>
    eCommand (p.data.numbers .engineerTrainNumber) (p.data.numbers .engineerSensorIndex)
  | .help => ⟨true, helpMessage, []⟩
  | .xDistance =>
    xCommand engineers (p.data.numbers .xMarksTheSpotNodeNumber)
      (p.data.numbers .xMarksTheSpotDistance)
  | .kWhichTrack =>
    ⟨true, "Loading track\n\r", [.loadTrackStructure (p.data.letters .whichTrack)]⟩
  | .cLoops =>
    cCommand (p.data.numbers .calibrationTrainNumber)
      (p.data.numbers .calibrationTrainSpeed) (p.data.letters .calibrationSensorGroup)
      (p.data.numbers .calibrationSensorNumber) (p.data.numbers .calibrationNumLoops)
  | _ => notRecognized

def vtRed : String := "\x1b[31m"
def vtReset : String := "\x1b[0m"
def vtCarriageReturn : Char := '\r'

/-- With what is shown around the message of a command. -/
def Response.shown (response : Response) : Response :=
  { response with
    message := vtReset ++ "  | " ++ response.message ++ if response.run then "> " else "" }

def isPrintable (c : Char) : Bool := ' ' ≤ c ∧ c ≤ '~'

def parse (engineers : Engineers) (p : Parser) (c : Char) : Parser × Response :=
  if isPrintable c then
    let c := c.toLower
    let p := nextState p c
    (p, ⟨true, (if p.state = .error then vtRed else "") ++ c.toString, []⟩)
  else if c = vtCarriageReturn then
    ({ p with state := .empty }, (carryOut engineers p).shown)
  else (p, ⟨true, "", []⟩)

/-- The loop of `parserTask` over a string that has been typed. -/
def parseString (engineers : Engineers) : Parser → List Char → Parser × List Response
  | p, [] => (p, [])
  | p, c :: input =>
    let (p, response) := parse engineers p c
    if response.run then
      let (p, responses) := parseString engineers p input
      (p, response :: responses)
    else (p, [response])

end TrainKernel.User
