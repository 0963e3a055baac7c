import TrainKernel.User.Parser

/-!
# The forms of the commands

The states of the parser are the places in the forms of its commands. Three kinds of lines are
taken that have no form: `c` alone, and what begins with `p` or `?` and goes on.
-/

namespace TrainKernel.User

open Library.Int32 Library.LineForms

inductive LineCommand (N : Type) where
  | go (trainNumber nodeNumber : N)
  | x (nodeNumber distance : N)
  | k (track : Char)
  | c (trainNumber trainSpeed : N) (sensorGroup : Char) (sensorNumber numLoops : N)
  | h (trainNumber : N) (sensorGroup : Char) (sensorNumber : N)
  | tr (trainNumber trainSpeed : N)
  | rv (trainNumber : N)
  | sw (turnoutNumber : N) (direction : Char)
  | e (trainNumber sensorIndex : N)
  | q
  | d
  | p
  | help
deriving DecidableEq, Repr

@[simp]
def LineCommand.map {N M : Type} (f : N → M) : LineCommand N → LineCommand M
  | .go trainNumber nodeNumber => .go (f trainNumber) (f nodeNumber)
  | .x nodeNumber distance => .x (f nodeNumber) (f distance)
  | .k track => .k track
  | .c trainNumber trainSpeed sensorGroup sensorNumber numLoops =>
    .c (f trainNumber) (f trainSpeed) sensorGroup (f sensorNumber) (f numLoops)
  | .h trainNumber sensorGroup sensorNumber => .h (f trainNumber) sensorGroup (f sensorNumber)
  | .tr trainNumber trainSpeed => .tr (f trainNumber) (f trainSpeed)
  | .rv trainNumber => .rv (f trainNumber)
  | .sw turnoutNumber direction => .sw (f turnoutNumber) direction
  | .e trainNumber sensorIndex => .e (f trainNumber) (f sensorIndex)
  | .q => .q
  | .d => .d
  | .p => .p
  | .help => .help

/-- What a command does, on the numbers that were read. -/
@[simp]
def execute (engineers : Engineers) : LineCommand Int → Response
  | .go trainNumber nodeNumber => goCommand engineers trainNumber nodeNumber
  | .x nodeNumber distance => xCommand engineers nodeNumber distance
  | .k track => ⟨true, "Loading track\n\r", [.loadTrackStructure track]⟩
  | .c trainNumber trainSpeed sensorGroup sensorNumber numLoops =>
    cCommand trainNumber trainSpeed sensorGroup sensorNumber numLoops
  | .h trainNumber sensorGroup sensorNumber => hCommand trainNumber sensorGroup sensorNumber
  | .tr trainNumber trainSpeed => trCommand engineers trainNumber trainSpeed
  | .rv trainNumber => rvCommand engineers trainNumber
  | .sw turnoutNumber direction => swCommand turnoutNumber direction
  | .e trainNumber sensorIndex => eCommand trainNumber sensorIndex
  | .q => ⟨false, "Quit\r\n", []⟩
  | .d => ⟨true, "Debug task!\r\n", [.taskDisplayAll]⟩
  | .p => ⟨true, "Drawing track A!\r\n", [.drawTrackLayoutGraph 'a']⟩
  | .help => ⟨true, helpMessage, []⟩

def Digits (ds : List Char) : Prop := ds ≠ [] ∧ ∀ c ∈ ds, c.isDigit

theorem Digits.of_all {ds : List Char} (hSome : ds ≠ []) (hAll : ds.all Char.isDigit) :
    Digits ds :=
  ⟨hSome, List.all_eq_true.mp hAll⟩

/-- The decimal value of digits. -/
def decimal (ds : List Char) : Nat := ds.foldl (fun n c => 10 * n + (c.toNat - '0'.toNat)) 0

/-- The lines that the help message describes, in lower case. Nothing takes the `o` in it. -/
inductive Documented : List Char → LineCommand Nat → Prop
  | go {n m : List Char} (hn : Digits n) (hm : Digits m) :
      Documented ('g' :: 'o' :: ' ' :: (n ++ ' ' :: m)) (.go (decimal n) (decimal m))
  | x {n m : List Char} (hn : Digits n) (hm : Digits m) :
      Documented ('x' :: ' ' :: (n ++ ' ' :: m)) (.x (decimal n) (decimal m))
  | k {track : Char} (hTrack : isTrack track) : Documented ['k', ' ', track] (.k track)
  | c {n m s l : List Char} {group : Char} (hn : Digits n) (hm : Digits m)
      (hGroup : isSensorGroup group) (hs : Digits s) (hl : Digits l) :
      Documented ('c' :: ' ' :: (n ++ ' ' :: (m ++ ' ' :: group :: ' ' :: (s ++ ' ' :: l))))
        (.c (decimal n) (decimal m) group (decimal s) (decimal l))
  | h {n s : List Char} {group : Char} (hn : Digits n) (hGroup : isSensorGroup group)
      (hs : Digits s) :
      Documented ('h' :: ' ' :: (n ++ ' ' :: group :: ' ' :: s)) (.h (decimal n) group (decimal s))
  | tr {n m : List Char} (hn : Digits n) (hm : Digits m) :
      Documented ('t' :: 'r' :: ' ' :: (n ++ ' ' :: m)) (.tr (decimal n) (decimal m))
  | rv {n : List Char} (hn : Digits n) : Documented ('r' :: 'v' :: ' ' :: n) (.rv (decimal n))
  | sw {n : List Char} {direction : Char} (hn : Digits n) (hDirection : isDirection direction) :
      Documented ('s' :: 'w' :: ' ' :: (n ++ [' ', direction])) (.sw (decimal n) direction)
  | e {n m : List Char} (hn : Digits n) (hm : Digits m) :
      Documented ('e' :: ' ' :: (n ++ ' ' :: m)) (.e (decimal n) (decimal m))
  | q : Documented ['q'] .q
  | d : Documented ['d'] .d
  | p : Documented ['p'] .p
  | help : Documented ['?'] .help

theorem digits_append_inj {n n' m m' : List Char} (hn : Digits n) (hn' : Digits n')
    (h : n ++ ' ' :: m = n' ++ ' ' :: m') : n = n' ∧ m = m' := by
  have hTake {ds rest : List Char} (hds : Digits ds) :
      (ds ++ ' ' :: rest).takeWhile Char.isDigit = ds := by
    rw [List.takeWhile_append_of_pos hds.2, List.takeWhile_cons_of_neg (by decide), List.append_nil]
  obtain rfl : n = n' := by
    rw [← hTake hn, h, hTake hn']
  exact ⟨rfl, (List.cons.inj (List.append_cancel_left h)).2⟩

/-- A line describes at most one command. -/
theorem Documented.unique {line line' : List Char} {command command' : LineCommand Nat}
    (h : Documented line command) (h' : Documented line' command') (hLine : line = line') :
    command = command' := by
  cases h <;> cases h' <;> simp only [List.cons.injEq, Char.reduceEq, false_and, and_false,
    true_and, and_true, reduceCtorEq] at hLine
  case go.go hn _ _ _ hn' _ =>
    obtain ⟨rfl, rfl⟩ := digits_append_inj hn hn' hLine
    rfl
  case x.x hn _ _ _ hn' _ =>
    obtain ⟨rfl, rfl⟩ := digits_append_inj hn hn' hLine
    rfl
  case k.k => rw [hLine]
  case c.c hn hm _ hs _ _ _ _ _ _ hn' hm' _ hs' _ =>
    obtain ⟨rfl, hRest⟩ := digits_append_inj hn hn' hLine
    obtain ⟨rfl, hGroup⟩ := digits_append_inj hm hm' hRest
    obtain ⟨rfl, hSensor⟩ := List.cons.inj hGroup
    obtain ⟨rfl, rfl⟩ := digits_append_inj hs hs' (List.cons.inj hSensor).2
    rfl
  case h.h hn _ _ _ _ _ hn' _ _ =>
    obtain ⟨rfl, hRest⟩ := digits_append_inj hn hn' hLine
    obtain ⟨rfl, hSensor⟩ := List.cons.inj hRest
    rw [(List.cons.inj hSensor).2]
  case tr.tr hn _ _ _ hn' _ =>
    obtain ⟨rfl, rfl⟩ := digits_append_inj hn hn' hLine
    rfl
  case rv.rv => rw [hLine]
  case sw.sw hn _ _ _ hn' _ =>
    obtain ⟨rfl, hRest⟩ := digits_append_inj hn hn' hLine
    rw [(List.cons.inj hRest).1]
  case e.e hn _ _ _ hn' _ =>
    obtain ⟨rfl, rfl⟩ := digits_append_inj hn hn' hLine
    rfl
  all_goals rfl

inductive CommandKind where
  | go
  | x
  | k
  | c
  | h
  | tr
  | rv
  | sw
  | e
  | q
  | d
  | p
  | help
deriving DecidableEq, Repr

def form : CommandKind → List (Token NumberField LetterField)
  | .go => [.char 'g', .char 'o', .char ' ', .number .goTrainNumber, .char ' ',
    .number .goNodeNumber]
  | .x => [.char 'x', .char ' ', .number .xMarksTheSpotNodeNumber, .char ' ',
    .number .xMarksTheSpotDistance]
  | .k => [.char 'k', .char ' ', .letter .whichTrack isTrack]
  | .c => [.char 'c', .char ' ', .number .calibrationTrainNumber, .char ' ',
    .number .calibrationTrainSpeed, .char ' ', .letter .calibrationSensorGroup isSensorGroup,
    .char ' ', .number .calibrationSensorNumber, .char ' ', .number .calibrationNumLoops]
  | .h => [.char 'h', .char ' ', .number .sensorHaltTrainNumber, .char ' ',
    .letter .sensorHaltSensorGroup isSensorGroup, .char ' ', .number .sensorHaltSensorNumber]
  | .tr => [.char 't', .char 'r', .char ' ', .number .speedTrainNumber, .char ' ',
    .number .speedTrainSpeed]
  | .rv => [.char 'r', .char 'v', .char ' ', .number .reverseTrainNumber]
  | .sw => [.char 's', .char 'w', .char ' ', .number .turnoutNumber, .char ' ',
    .letter .turnoutDirection isDirection]
  | .e => [.char 'e', .char ' ', .number .engineerTrainNumber, .char ' ',
    .number .engineerSensorIndex]
  | .q => [.char 'q']
  | .d => [.char 'd']
  | .p => [.char 'p']
  | .help => [.char '?']

/-- The command that a state belongs to, with how many tokens of its form have been met. -/
def place : ParserState → Option (CommandKind × Nat)
  | .error => none
  | .empty => none
  | .zero => none
  | .g => some (.go, 1)
  | .go => some (.go, 2)
  | .go_ => some (.go, 3)
  | .goT => some (.go, 4)
  | .goT_ => some (.go, 5)
  | .goTN => some (.go, 6)
  | .x => some (.x, 1)
  | .xSpace1 => some (.x, 2)
  | .xNodeNumber => some (.x, 3)
  | .xSpace2 => some (.x, 4)
  | .xDistance => some (.x, 5)
  | .k => some (.k, 1)
  | .kSpace => some (.k, 2)
  | .kWhichTrack => some (.k, 3)
  | .c => some (.c, 1)
  | .cSpace1 => some (.c, 2)
  | .cTrainNumber => some (.c, 3)
  | .cSpace2 => some (.c, 4)
  | .cTrainSpeed => some (.c, 5)
  | .cSpace3 => some (.c, 6)
  | .cSensorGroup => some (.c, 7)
  | .cSpace4 => some (.c, 8)
  | .cSensorNumber => some (.c, 9)
  | .cSpace5 => some (.c, 10)
  | .cLoops => some (.c, 11)
  | .hH => some (.h, 1)
  | .hSpace1 => some (.h, 2)
  | .hTrainNumber => some (.h, 3)
  | .hSpace2 => some (.h, 4)
  | .hSensorGroup => some (.h, 5)
  | .hSpace3 => some (.h, 6)
  | .hSensorNumber => some (.h, 7)
  | .trT => some (.tr, 1)
  | .trR => some (.tr, 2)
  | .trSpace1 => some (.tr, 3)
  | .trTrainNumber => some (.tr, 4)
  | .trSpace2 => some (.tr, 5)
  | .trSpeed => some (.tr, 6)
  | .rvR => some (.rv, 1)
  | .rvV => some (.rv, 2)
  | .rvSpace => some (.rv, 3)
  | .rvTrainNumber => some (.rv, 4)
  | .swS => some (.sw, 1)
  | .swW => some (.sw, 2)
  | .swSpace1 => some (.sw, 3)
  | .swTurnoutNumber => some (.sw, 4)
  | .swSpace2 => some (.sw, 5)
  | .swTurnoutDir => some (.sw, 6)
  | .e => some (.e, 1)
  | .eSpace1 => some (.e, 2)
  | .eTrainNumber => some (.e, 3)
  | .eSpace2 => some (.e, 4)
  | .eSensorIndex => some (.e, 5)
  | .qQ => some (.q, 1)
  | .dbTask => some (.d, 1)
  | .p => some (.p, 1)
  | .help => some (.help, 1)

/-- Where a reader is after `i` tokens; it can still be in a number. -/
def cursorAt (kind : CommandKind) (i : Nat) : Cursor NumberField LetterField :=
  match (form kind)[i - 1]? with
  | some (.number f) => .inNumber f ((form kind).drop i)
  | _ => .expecting ((form kind).drop i)

def parserRadix : Radix Int := ⟨0, fun num c => wrap32 (10 * num + (c.toNat - '0'.toNat))⟩

/-! ## The states read the forms -/

/-- The state of the parser while it reads a command. -/
inductive Mirrors (kind : CommandKind) : ParserState → Cursor NumberField LetterField → Prop
  | error : Mirrors kind .error .failed
  | here {s : ParserState} {i : Nat} (hPlace : place s = some (kind, i)) :
      Mirrors kind s (cursorAt kind i)

def Agrees (kind : CommandKind) (p : Parser)
    (r : Cursor NumberField LetterField × ParserData) : Prop :=
  Mirrors kind p.state r.1 ∧ p.data = r.2

section Steps

variable {kind : CommandKind} {p otherwise : Parser} {c ch : Char} {succ : ParserState} {i : Nat}
variable {tokens : List (Token NumberField LetterField)} {f : NumberField} {g : LetterField}
variable {allowed : Char → Bool} {cursor : Cursor NumberField LetterField}

theorem Mirrors.of_place {s : ParserState} (hPlace : place s = some (kind, i))
    (hCursor : cursorAt kind i = cursor) : Mirrors kind s cursor :=
  hCursor ▸ .here hPlace

theorem require_agrees (hSucc : place succ = some (kind, i))
    (hNext : cursorAt kind i = .expecting tokens) :
    Agrees kind (require p c ch succ) (expect parserRadix p.data c (.char ch :: tokens)) := by
  rw [require, expect]
  split_ifs with hSame
  · exact ⟨.of_place hSucc hNext, rfl⟩
  · exact ⟨.error, rfl⟩

theorem startNumber_agrees (hSucc : place succ = some (kind, i))
    (hNext : cursorAt kind i = .inNumber f tokens) :
    Agrees kind (startNumber p c f succ) (expect parserRadix p.data c (.number f :: tokens)) := by
  rw [startNumber, expect, appendNumber]
  split_ifs with hDigit
  · exact ⟨.of_place hSucc hNext, rfl⟩
  · exact ⟨.error, rfl⟩

theorem continueNumber_agrees (hHere : place p.state = some (kind, i))
    (hCursor : cursorAt kind i = .inNumber f tokens)
    (hOther : Agrees kind otherwise (expect parserRadix p.data c tokens)) :
    Agrees kind (continueNumber p c f otherwise)
      (advance parserRadix p.data c (.inNumber f tokens)) := by
  rw [continueNumber, advance, appendNumber]
  split_ifs with hDigit
  · exact ⟨.of_place hHere hCursor, rfl⟩
  · exact hOther

theorem storeLetter_agrees (hSucc : place succ = some (kind, i))
    (hNext : cursorAt kind i = .expecting tokens) :
    Agrees kind (storeLetter p c g (allowed c) succ)
      (expect parserRadix p.data c (.letter g allowed :: tokens)) := by
  rw [storeLetter, expect]
  split_ifs with hAllowed
  · exact ⟨.of_place hSucc hNext, rfl⟩
  · exact ⟨.error, rfl⟩

theorem toError_agrees : Agrees kind (toError p) (expect parserRadix p.data c []) :=
  ⟨.error, rfl⟩

/-- The two states without a case of their own keep any character. -/
theorem nextState_agrees (hMirrors : Mirrors kind p.state cursor) (hP : p.state ≠ .p)
    (hHelp : p.state ≠ .help) :
    Agrees kind (nextState p c) (advance parserRadix p.data c cursor) := by
  obtain ⟨s, d⟩ := p
  cases hMirrors with
  | error => exact ⟨.error, rfl⟩
  | here hPlace =>
    cases s <;> cases hPlace <;> dsimp only [nextState]
    all_goals
      first
      | exact absurd rfl hP
      | exact absurd rfl hHelp
      | exact toError_agrees (c := c)
      | exact require_agrees rfl rfl
      | exact startNumber_agrees rfl rfl
      | exact storeLetter_agrees rfl rfl
      | exact continueNumber_agrees rfl rfl (require_agrees rfl rfl)
      | exact continueNumber_agrees rfl rfl (toError_agrees (c := c))

end Steps

theorem bmod_append (n d : Int) (m : Nat) :
    (10 * n.bmod m + d).bmod m = (10 * n + d).bmod m := by
  rw [← Int.bmod_add_bmod, Int.mul_bmod_bmod, Int.bmod_add_bmod]

theorem wrap32_append (n d : Int) : wrap32 (10 * wrap32 n + d) = wrap32 (10 * n + d) :=
  bmod_append n d _

theorem parserRadix_append (num : Int) (c : Char) :
    parserRadix.append num c = wrap32 (10 * num + (c.toNat - '0'.toNat)) := rfl

theorem foldl_append {ds : List Char} (hDigits : ∀ c ∈ ds, c.isDigit) (n : Nat) :
    ds.foldl parserRadix.append (wrap32 n) =
      wrap32 (ds.foldl (fun n c => 10 * n + (c.toNat - '0'.toNat)) n : Nat) := by
  induction ds generalizing n with
  | nil => rw [List.foldl_nil, List.foldl_nil]
  | cons c ds ih =>
    obtain ⟨hDigit, hDigits⟩ := List.forall_mem_cons.mp hDigits
    have hLow := (Char.isDigit_iff_toNat.mp hDigit).1
    have hAppend : parserRadix.append (wrap32 n) c =
        wrap32 (10 * n + (c.toNat - '0'.toNat) : Nat) := by
      have hSum : (10 * n + (c.toNat - '0'.toNat) : Int) =
          (10 * n + (c.toNat - '0'.toNat) : Nat) := by omega
      rw [← hSum, parserRadix_append, wrap32_append]
    rw [List.foldl_cons, List.foldl_cons, hAppend, ih hDigits]

/-- A number is kept as what `int` makes of its decimal value. -/
theorem number_eq {ds : List Char} (h : Digits ds) :
    parserRadix.number ds = wrap32 (decimal ds) := by
  have hZero : wrap32 (0 : Nat) = parserRadix.zero := Int.zero_bmod
  rw [Radix.number, ← hZero, foldl_append h.2]
  rfl

/-- The parser after a line in lower case. -/
def readLine (p : Parser) (line : List Char) : Parser := line.foldl nextState p

def firstChar : CommandKind → Char
  | .go => 'g'
  | .x => 'x'
  | .k => 'k'
  | .c => 'c'
  | .h => 'h'
  | .tr => 't'
  | .rv => 'r'
  | .sw => 's'
  | .e => 'e'
  | .q => 'q'
  | .d => 'd'
  | .p => 'p'
  | .help => '?'

@[simp]
def endState : CommandKind → ParserState
  | .go => .goTN
  | .x => .xDistance
  | .k => .kWhichTrack
  | .c => .cLoops
  | .h => .hSensorNumber
  | .tr => .trSpeed
  | .rv => .rvTrainNumber
  | .sw => .swTurnoutDir
  | .e => .eSensorIndex
  | .q => .qQ
  | .d => .dbTask
  | .p => .p
  | .help => .help

section Lines

variable {kind : CommandKind} {p : Parser} {s : ParserState} {line : List Char} {c : Char}
variable {cursor : Cursor NumberField LetterField} {d d' : ParserData}

theorem form_eq (kind : CommandKind) : form kind = .char (firstChar kind) :: (form kind).tail := by
  cases kind <;> rfl

theorem tail_separated (kind : CommandKind) : separated (form kind).tail := by
  cases kind <;> rfl

theorem place_firstState (kind : CommandKind) :
    place (firstState (firstChar kind)) = some (kind, 1) := by
  cases kind <;> rfl

theorem cursorAt_one (kind : CommandKind) :
    cursorAt kind 1 = .expecting (form kind).tail := by
  cases kind <;> rfl

theorem firstState_error (h : ∀ kind, firstChar kind ≠ c) : firstState c = .error := by
  unfold firstState
  split
  · exact absurd rfl (h .go)
  · exact absurd rfl (h .tr)
  · exact absurd rfl (h .rv)
  · exact absurd rfl (h .sw)
  · exact absurd rfl (h .q)
  · exact absurd rfl (h .d)
  · exact absurd rfl (h .h)
  · exact absurd rfl (h .p)
  · exact absurd rfl (h .e)
  · exact absurd rfl (h .c)
  · exact absurd rfl (h .k)
  · exact absurd rfl (h .x)
  · exact absurd rfl (h .help)
  · rfl

/-- At the end of a form the parser is in the state that has the command carried out. -/
theorem Mirrors.endState (hMirrors : Mirrors kind s cursor) (hDone : cursor.Done) :
    s = endState kind := by
  cases hMirrors with
  | error => exact hDone.elim
  | here hPlace =>
    cases s <;> cases hPlace
    all_goals
      first
      | rfl
      | cases hDone

theorem Mirrors.notRecognized (hMirrors : Mirrors kind s cursor) (hDone : ¬cursor.Done)
    (hC : s ≠ .c) (engineers : Engineers) : carryOut engineers ⟨s, d⟩ = notRecognized := by
  cases hMirrors with
  | error => rfl
  | here hPlace =>
    cases s <;> cases hPlace
    all_goals
      first
      | rfl
      | exact absurd rfl hC
      | exact absurd rfl hDone

theorem Mirrors.kind_eq {kind' : CommandKind} {i : Nat} (hMirrors : Mirrors kind s cursor)
    (hPlace : place s = some (kind', i)) : kind = kind' := by
  cases hMirrors with
  | error => cases hPlace
  | here hHere => exact congrArg Prod.fst (Option.some.inj (hHere.symm.trans hPlace))

theorem readLine_agrees (hMirrors : Mirrors kind p.state cursor) (hP : kind ≠ .p)
    (hHelp : kind ≠ .help) :
    Agrees kind (readLine p line) (readAll parserRadix line cursor p.data) := by
  induction line generalizing p cursor with
  | nil => exact ⟨hMirrors, rfl⟩
  | cons c line ih =>
    have hStateP : p.state ≠ .p := fun hState => hP (hMirrors.kind_eq (congrArg place hState))
    have hStateHelp : p.state ≠ .help := fun hState =>
      hHelp (hMirrors.kind_eq (congrArg place hState))
    obtain ⟨hNext, hData⟩ := nextState_agrees (c := c) hMirrors hStateP hStateHelp
    rw [readAll_cons, ← hData]
    exact ih hNext

theorem readLine_error (hState : p.state = .error) : readLine p line = p := by
  induction line with
  | nil => rfl
  | cons c line ih =>
    have hNext : nextState p c = p := by rw [nextState, hState]
    rw [readLine, List.foldl_cons, hNext]
    exact ih

/-- Nothing leads back to `c`. -/
theorem readLine_ne_c (hMirrors : Mirrors kind p.state (cursorAt kind 1)) (hP : kind ≠ .p)
    (hHelp : kind ≠ .help) (hSome : line ≠ [] ∨ kind ≠ .c) : (readLine p line).state ≠ .c := by
  intro hState
  have hAgrees : Agrees kind (readLine p line) _ := readLine_agrees hMirrors hP hHelp
  have hLast := hAgrees.1
  rw [hState] at hLast
  obtain ⟨cursor, hCursor⟩ : ∃ cursor, cursor =
    (readAll parserRadix line (cursorAt kind 1) p.data).1 := ⟨_, rfl⟩
  rw [← hCursor] at hLast
  cases hLast with
  | here hPlace =>
    cases hPlace
    obtain ⟨c, line, rfl⟩ := List.exists_cons_of_ne_nil (hSome.resolve_right fun hC => hC rfl)
    have hLess : (readAll parserRadix (c :: line) (cursorAt .c 1) p.data).1.left <
        (form .c).tail.length := left_readAll_lt
    rw [← hCursor] at hLess
    exact absurd hLess (by decide)

theorem readLine_cons (hEmpty : p.state = .empty) :
    readLine p (c :: line) = readLine ⟨firstState c, p.data⟩ line := by
  rw [readLine, List.foldl_cons, nextState, hEmpty]
  rfl

/-- A line that has a form leaves the parser in its end state, with the fields read. -/
theorem readLine_of_reads (hEmpty : p.state = .empty)
    (hReads : Reads parserRadix (form kind) line p.data d') :
    readLine p line = ⟨endState kind, d'⟩ := by
  rw [form_eq, reads_char_iff] at hReads
  obtain ⟨rest, rfl, hRest⟩ := hReads
  rw [readLine_cons hEmpty]
  by_cases hP : kind = .p
  · subst hP
    obtain ⟨rfl, rfl⟩ := reads_nil_iff.mp hRest
    rfl
  · by_cases hHelp : kind = .help
    · subst hHelp
      obtain ⟨rfl, rfl⟩ := reads_nil_iff.mp hRest
      rfl
    · obtain ⟨hDone, hFields⟩ := done_of_reads hRest (tail_separated kind)
      rw [← cursorAt_one] at hDone hFields
      have hAgrees : Agrees kind (readLine ⟨firstState (firstChar kind), p.data⟩ rest) _ :=
        readLine_agrees (.here (place_firstState kind)) hP hHelp
      obtain ⟨hMirrors, hData⟩ := hAgrees
      rw [Parser.ext_iff, hMirrors.endState hDone, hData, hFields]
      exact ⟨rfl, rfl⟩

/-- The lines without a form that are taken all the same. -/
def Deviates (line : List Char) : Prop :=
  line = ['c'] ∨ ∃ rest, rest ≠ [] ∧ (line = 'p' :: rest ∨ line = '?' :: rest)

theorem readLine_of_not_reads (hEmpty : p.state = .empty)
    (hReads : ∀ kind d', ¬Reads parserRadix (form kind) line p.data d') (hLine : ¬Deviates line)
    (engineers : Engineers) : carryOut engineers (readLine p line) = notRecognized := by
  cases line with
  | nil =>
    show carryOut engineers p = notRecognized
    rw [carryOut, hEmpty]
  | cons c rest =>
    rw [readLine_cons hEmpty]
    by_cases hKind : ∃ kind, firstChar kind = c
    · obtain ⟨kind, rfl⟩ := hKind
      have hRest (d' : ParserData) : ¬Reads parserRadix (form kind).tail rest p.data d' := by
        intro hRest
        apply hReads kind d'
        rw [form_eq]
        exact .char hRest
      have hMirrors := Mirrors.here (place_firstState kind)
      have hSome (hShort : (form kind).tail = []) : rest ≠ [] := by
        rintro rfl
        exact hRest p.data (hShort ▸ .nil)
      have hP : kind ≠ .p := by
        rintro rfl
        exact hLine (Or.inr ⟨rest, hSome rfl, Or.inl rfl⟩)
      have hHelp : kind ≠ .help := by
        rintro rfl
        exact hLine (Or.inr ⟨rest, hSome rfl, Or.inr rfl⟩)
      have hC : rest ≠ [] ∨ kind ≠ .c := by
        rw [← not_and_or]
        rintro ⟨rfl, rfl⟩
        exact hLine (Or.inl rfl)
      have hAgrees : Agrees kind (readLine ⟨firstState (firstChar kind), p.data⟩ rest) _ :=
        readLine_agrees hMirrors hP hHelp
      apply hAgrees.1.notRecognized
      · intro hDone
        rw [cursorAt_one] at hDone
        exact hRest _ (reads_of_done.1 hDone)
      · exact readLine_ne_c hMirrors hP hHelp hC
    · rw [firstState_error (not_exists.mp hKind), readLine_error rfl]
      rfl

end Lines

/-! ## Documented lines -/

/-- The numbers as `int` keeps them. -/
@[simp]
def LineCommand.wrapped (command : LineCommand Nat) : LineCommand Int :=
  command.map fun n : Nat => wrap32 n

section Documented

variable {kind : CommandKind} {line : List Char} {command : LineCommand Nat} {d d' : ParserData}

theorem documented_of_reads (hReads : Reads parserRadix (form kind) line d d') :
    ∃ command, Documented line command := by
  cases kind <;> simp only [form, reads_char_iff, reads_letter_iff, reads_number_iff,
    reads_nil_iff] at hReads
  case go =>
    obtain ⟨_, rfl, _, rfl, _, rfl, n, _, rfl, hn, _, rfl, m, _, rfl, hm, rfl, -⟩ := hReads
    rw [List.append_nil]
    exact ⟨_, .go hn hm⟩
  case x =>
    obtain ⟨_, rfl, _, rfl, n, _, rfl, hn, _, rfl, m, _, rfl, hm, rfl, -⟩ := hReads
    rw [List.append_nil]
    exact ⟨_, .x hn hm⟩
  case k =>
    obtain ⟨_, rfl, _, rfl, track, _, rfl, hTrack, rfl, -⟩ := hReads
    exact ⟨_, .k hTrack⟩
  case c =>
    obtain ⟨_, rfl, _, rfl, n, _, rfl, hn, _, rfl, m, _, rfl, hm, _, rfl, group, _, rfl, hGroup,
      _, rfl, s, _, rfl, hs, _, rfl, l, _, rfl, hl, rfl, -⟩ := hReads
    rw [List.append_nil]
    exact ⟨_, .c hn hm hGroup hs hl⟩
  case h =>
    obtain ⟨_, rfl, _, rfl, n, _, rfl, hn, _, rfl, group, _, rfl, hGroup, _, rfl, s, _, rfl, hs,
      rfl, -⟩ := hReads
    rw [List.append_nil]
    exact ⟨_, .h hn hGroup hs⟩
  case tr =>
    obtain ⟨_, rfl, _, rfl, _, rfl, n, _, rfl, hn, _, rfl, m, _, rfl, hm, rfl, -⟩ := hReads
    rw [List.append_nil]
    exact ⟨_, .tr hn hm⟩
  case rv =>
    obtain ⟨_, rfl, _, rfl, _, rfl, n, _, rfl, hn, rfl, -⟩ := hReads
    rw [List.append_nil]
    exact ⟨_, .rv hn⟩
  case sw =>
    obtain ⟨_, rfl, _, rfl, _, rfl, n, _, rfl, hn, _, rfl, direction, _, rfl, hDirection, rfl,
      -⟩ := hReads
    exact ⟨_, .sw hn hDirection⟩
  case e =>
    obtain ⟨_, rfl, _, rfl, n, _, rfl, hn, _, rfl, m, _, rfl, hm, rfl, -⟩ := hReads
    rw [List.append_nil]
    exact ⟨_, .e hn hm⟩
  case q =>
    obtain ⟨_, rfl, rfl, -⟩ := hReads
    exact ⟨_, .q⟩
  case d =>
    obtain ⟨_, rfl, rfl, -⟩ := hReads
    exact ⟨_, .d⟩
  case p =>
    obtain ⟨_, rfl, rfl, -⟩ := hReads
    exact ⟨_, .p⟩
  case help =>
    obtain ⟨_, rfl, rfl, -⟩ := hReads
    exact ⟨_, .help⟩

/-- A documented line is read, and its end state has the command carried out. -/
theorem reads_of_documented (hDocumented : Documented line command) (d : ParserData) :
    ∃ kind d', Reads parserRadix (form kind) line d d' ∧
      ∀ engineers, carryOut engineers ⟨endState kind, d'⟩ = execute engineers command.wrapped := by
  cases hDocumented with
  | go hn hm =>
    refine ⟨.go, _, .char (.char (.char (.number hn.1 hn.2 (.char (reads_number hm.1 hm.2))))),
      fun engineers => ?_⟩
    simp [carryOut, number_eq hn, number_eq hm]
  | x hn hm =>
    refine ⟨.x, _, .char (.char (.number hn.1 hn.2 (.char (reads_number hm.1 hm.2)))),
      fun engineers => ?_⟩
    simp [carryOut, number_eq hn, number_eq hm]
  | k hTrack => exact ⟨.k, _, .char (.char (.letter hTrack .nil)), fun engineers => rfl⟩
  | c hn hm hGroup hs hl =>
    refine ⟨.c, _, .char (.char (.number hn.1 hn.2 (.char (.number hm.1 hm.2 (.char
      (.letter hGroup (.char (.number hs.1 hs.2 (.char (reads_number hl.1 hl.2)))))))))),
      fun engineers => ?_⟩
    simp [carryOut, number_eq hn, number_eq hm, number_eq hs, number_eq hl]
  | h hn hGroup hs =>
    refine ⟨.h, _, .char (.char (.number hn.1 hn.2 (.char (.letter hGroup (.char
      (reads_number hs.1 hs.2)))))), fun engineers => ?_⟩
    simp [carryOut, number_eq hn, number_eq hs]
  | tr hn hm =>
    refine ⟨.tr, _, .char (.char (.char (.number hn.1 hn.2 (.char (reads_number hm.1 hm.2))))),
      fun engineers => ?_⟩
    simp [carryOut, number_eq hn, number_eq hm]
  | rv hn =>
    refine ⟨.rv, _, .char (.char (.char (reads_number hn.1 hn.2))), fun engineers => ?_⟩
    simp [carryOut, number_eq hn]
  | sw hn hDirection =>
    refine ⟨.sw, _, .char (.char (.char (.number hn.1 hn.2 (.char (.letter hDirection .nil))))),
      fun engineers => ?_⟩
    simp [carryOut, number_eq hn]
  | e hn hm =>
    refine ⟨.e, _, .char (.char (.number hn.1 hn.2 (.char (reads_number hm.1 hm.2)))),
      fun engineers => ?_⟩
    simp [carryOut, number_eq hn, number_eq hm]
  | q => exact ⟨.q, d, .char .nil, fun engineers => rfl⟩
  | d => exact ⟨.d, d, .char .nil, fun engineers => rfl⟩
  | p => exact ⟨.p, d, .char .nil, fun engineers => rfl⟩
  | help => exact ⟨.help, d, .char .nil, fun engineers => rfl⟩

end Documented

section Typed

variable {engineers : Engineers} {p : Parser} {line : List Char} {command : LineCommand Nat}
variable {response : Response}

/-- What reaches the states: printable characters, in lower case. -/
def typed (line : List Char) : List Char := (line.filter isPrintable).map Char.toLower

theorem typed_of_printable (hLine : ∀ c ∈ line, isPrintable c) :
    typed line = line.map Char.toLower := by
  rw [typed, List.filter_eq_self.mpr hLine]

theorem typed_cons (c : Char) (line : List Char) : typed (c :: line) = typed [c] ++ typed line := by
  rw [typed, typed, typed, ← List.map_append, ← List.filter_append]
  rfl

/-- Before the carriage return nothing is called. -/
theorem parse_silent (engineers : Engineers) (p : Parser) {c : Char} (hc : c ≠ vtCarriageReturn) :
    (parse engineers p c).1 = readLine p (typed [c]) ∧ (parse engineers p c).2.run = true ∧
      (parse engineers p c).2.calls = [] := by
  rw [parse, typed]
  by_cases hPrintable : isPrintable c
  · rw [if_pos hPrintable, List.filter_cons_of_pos hPrintable]
    exact ⟨rfl, rfl, rfl⟩
  · rw [if_neg hPrintable, if_neg hc, List.filter_cons_of_neg hPrintable]
    exact ⟨rfl, rfl, rfl⟩

theorem parseString_cons {c : Char} {input : List Char}
    (hRun : (parse engineers p c).2.run = true) :
    parseString engineers p (c :: input) =
      ((parseString engineers (parse engineers p c).1 input).1,
        (parse engineers p c).2 :: (parseString engineers (parse engineers p c).1 input).2) := by
  rw [parseString]
  exact if_pos hRun

theorem parseString_line (engineers : Engineers) (p : Parser) (hLine : vtCarriageReturn ∉ line) :
    ∃ echoes, parseString engineers p (line ++ [vtCarriageReturn]) =
      (⟨.empty, (readLine p (typed line)).data⟩,
        echoes ++ [(carryOut engineers (readLine p (typed line))).shown]) ∧
      ∀ echo ∈ echoes, echo.calls = [] := by
  induction line generalizing p with
  | nil =>
    refine ⟨[], ?_, List.forall_mem_nil _⟩
    rw [List.nil_append, parseString, parse, if_neg (by decide), if_pos rfl]
    dsimp only
    split_ifs
    · rfl
    · rfl
  | cons c line ih =>
    have hEcho := parse_silent engineers p (List.ne_of_not_mem_cons hLine).symm
    obtain ⟨hNext, hRun, hCalls⟩ := hEcho
    obtain ⟨echoes, hParse, hSilent⟩ := ih (p := (parse engineers p c).1)
      (List.not_mem_of_not_mem_cons hLine)
    have hLast : readLine (parse engineers p c).1 (typed line) =
        readLine p (typed (c :: line)) := by
      rw [hNext, typed_cons c line, readLine, readLine, readLine, List.foldl_append]
    rw [List.cons_append, parseString_cons hRun, hParse, hLast]
    exact ⟨(parse engineers p c).2 :: echoes, rfl, List.forall_mem_cons.mpr ⟨hCalls, hSilent⟩⟩

/-- The whole line is answered with this response, and the parser is where it was. -/
def Answers (engineers : Engineers) (p : Parser) (line : List Char) (response : Response) : Prop :=
  ∃ p' echoes, parseString engineers p (line ++ [vtCarriageReturn]) =
    (p', echoes ++ [response.shown]) ∧ p'.state = .empty ∧ ∀ echo ∈ echoes, echo.calls = []

theorem answers_iff (hLine : vtCarriageReturn ∉ line) : Answers engineers p line response ↔
    (carryOut engineers (readLine p (typed line))).shown = response.shown := by
  obtain ⟨echoes, hParse, hSilent⟩ := parseString_line engineers p hLine
  constructor
  · rintro ⟨p', echoes', hParse', -, -⟩
    have hResponses := (Prod.mk.inj (hParse.symm.trans hParse')).2
    exact List.singleton_inj.mp (List.append_inj' hResponses rfl).2
  · intro hResponse
    rw [hResponse] at hParse
    exact ⟨_, echoes, hParse, rfl, hSilent⟩

theorem Answers.mem (hAnswers : Answers engineers p line response) :
    response.shown ∈ (parseString engineers p (line ++ [vtCarriageReturn])).2 := by
  obtain ⟨p', echoes, hParse, -⟩ := hAnswers
  rw [hParse]
  exact List.mem_append_right echoes List.mem_cons_self

/-- Nothing is called but by the answer to the whole line. -/
theorem Answers.calls {reply : Response} (hAnswers : Answers engineers p line response)
    (hMem : reply ∈ (parseString engineers p (line ++ [vtCarriageReturn])).2) :
    reply.calls = [] ∨ reply.calls = response.calls := by
  obtain ⟨p', echoes, hParse, -, hSilent⟩ := hAnswers
  rw [hParse] at hMem
  cases List.mem_append.mp hMem with
  | inl hEcho => exact Or.inl (hSilent reply hEcho)
  | inr hLast =>
    rw [List.mem_singleton.mp hLast]
    exact Or.inr rfl

theorem answers_documented (engineers : Engineers) (hEmpty : p.state = .empty)
    (hLine : vtCarriageReturn ∉ line) (hDocumented : Documented (typed line) command) :
    Answers engineers p line (execute engineers command.wrapped) := by
  obtain ⟨kind, d', hReads, hExecute⟩ := reads_of_documented hDocumented p.data
  rw [answers_iff hLine, readLine_of_reads hEmpty hReads, hExecute]

theorem answers_notRecognized (hEmpty : p.state = .empty) (hLine : vtCarriageReturn ∉ line)
    (hNone : ∀ command, ¬Documented (typed line) command) (hDeviates : ¬Deviates (typed line)) :
    Answers engineers p line notRecognized := by
  have hReads (kind : CommandKind) (d' : ParserData) :
      ¬Reads parserRadix (form kind) (typed line) p.data d' := by
    intro hReads
    obtain ⟨command, hDocumented⟩ := documented_of_reads hReads
    exact hNone command hDocumented
  rw [answers_iff hLine, readLine_of_not_reads hEmpty hReads hDeviates]

theorem not_documented_of_deviates {line : List Char} (hDeviates : Deviates line) :
    ¬Documented line command := by
  intro hDocumented
  rcases hDeviates with rfl | ⟨rest, hRest, rfl | rfl⟩
  · cases hDocumented
  · cases hDocumented
    exact hRest rfl
  · cases hDocumented
    exact hRest rfl

theorem readLine_stays {s : ParserState} {d : ParserData}
    (hStay : ∀ c, nextState ⟨s, d⟩ c = ⟨s, d⟩) : readLine ⟨s, d⟩ line = ⟨s, d⟩ := by
  induction line with
  | nil => rfl
  | cons c line ih =>
    rw [readLine, List.foldl_cons, hStay]
    exact ih

theorem helpMessage_ne : helpMessage ≠ notRecognized.message := by
  intro hSame
  have hEnd : "?                                  | help?\r\n".toList <:+ helpMessage.toList :=
    ⟨_, String.toList_append.symm⟩
  rw [hSame] at hEnd
  exact absurd hEnd.length_le (by decide)

/-- Each of these lines is answered as if it were a command. -/
theorem answers_of_deviates (engineers : Engineers) (hEmpty : p.state = .empty)
    (hLine : vtCarriageReturn ∉ line) (hDeviates : Deviates (typed line)) :
    ∃ answer ∈ [calibrationDelays, execute engineers .p, execute engineers .help],
      Answers engineers p line answer := by
  obtain hC | ⟨rest, -, hP | hHelp⟩ := hDeviates
  · refine ⟨_, List.mem_cons_self, (answers_iff hLine).mpr ?_⟩
    rw [hC, readLine_cons hEmpty]
    rfl
  · refine ⟨_, List.mem_cons_of_mem _ List.mem_cons_self, (answers_iff hLine).mpr ?_⟩
    have hStay : readLine ⟨firstState 'p', p.data⟩ rest = ⟨.p, p.data⟩ :=
      readLine_stays fun c => rfl
    rw [hP, readLine_cons hEmpty, hStay]
    rfl
  · refine ⟨_, List.mem_of_getLast? rfl, (answers_iff hLine).mpr ?_⟩
    have hStay : readLine ⟨firstState '?', p.data⟩ rest = ⟨.help, p.data⟩ :=
      readLine_stays fun c => rfl
    rw [hHelp, readLine_cons hEmpty, hStay]
    rfl

theorem not_answers_of_deviates (hEmpty : p.state = .empty) (hLine : vtCarriageReturn ∉ line)
    (hDeviates : Deviates (typed line)) : ¬Answers engineers p line notRecognized := by
  intro hNotRecognized
  obtain ⟨answer, hMem, hAnswers⟩ := answers_of_deviates engineers hEmpty hLine hDeviates
  have hSame := ((answers_iff hLine).mp hAnswers).symm.trans ((answers_iff hLine).mp hNotRecognized)
  rw [List.mem_cons, List.mem_cons, List.mem_singleton] at hMem
  obtain rfl | rfl | rfl := hMem
  · cases congrArg Response.calls hSame
  · cases congrArg Response.calls hSame
  · have hMessage : vtReset ++ "  | " ++ helpMessage ++ "> " =
        vtReset ++ "  | " ++ notRecognized.message ++ "> " := congrArg Response.message hSame
    rw [String.append_left_inj, String.append_right_inj] at hMessage
    exact helpMessage_ne hMessage

/-- A documented line has its command carried out, and no other line is a command. -/
def FollowsGrammar (engineers : Engineers) (p : Parser) (line : List Char) : Prop :=
  (∀ command, Documented (line.map Char.toLower) command →
    Answers engineers p line (execute engineers command.wrapped)) ∧
  ((∀ command, ¬Documented (line.map Char.toLower) command) →
    Answers engineers p line notRecognized)

theorem grammar_iff (hEmpty : p.state = .empty) (hLine : ∀ c ∈ line, isPrintable c) :
    (FollowsGrammar engineers p line ↔ ¬Deviates (line.map Char.toLower)) ∧
      (parseString engineers p (line ++ [vtCarriageReturn])).1.state = .empty := by
  have hReturn : vtCarriageReturn ∉ line := fun hMem => absurd (hLine _ hMem) (by decide)
  have hTyped := typed_of_printable hLine
  constructor
  · constructor
    · rintro ⟨-, hOther⟩ hDeviates
      have hAnswers := hOther fun command => not_documented_of_deviates hDeviates
      rw [← hTyped] at hDeviates
      exact not_answers_of_deviates hEmpty hReturn hDeviates hAnswers
    · intro hDeviates
      rw [FollowsGrammar, ← hTyped]
      rw [← hTyped] at hDeviates
      constructor
      · intro command hDocumented
        exact answers_documented engineers hEmpty hReturn hDocumented
      · intro hNone
        exact answers_notRecognized hEmpty hReturn hNone hDeviates
  · obtain ⟨echoes, hParse, -⟩ := parseString_line engineers p hReturn
    rw [hParse]

end Typed

def idleParser : Parser := ⟨.empty, ⟨fun _ => 0, fun _ => ' '⟩⟩

theorem grammar_iff_speed :
    FollowsGrammar noEngineers idleParser ['T', 'r', ' ', '5', ' ', '1', '4'] :=
  (grammar_iff rfl (List.all_eq_true.mp rfl)).1.mpr
    (by rintro (h | ⟨rest, -, h | h⟩) <;> cases h)
/-- What follows a `p` does not matter. -/
theorem not_followsGrammar : ¬FollowsGrammar noEngineers idleParser ['p', 'x'] := by
  rintro ⟨-, hOther⟩
  have hNone (command : LineCommand Nat) : ¬Documented ['p', 'x'] command := by
    intro hDocumented
    cases hDocumented
  obtain ⟨p', echoes, hParse, -⟩ := hOther hNone
  have hLast := congrArg (fun parsed => parsed.2.getLast?) hParse
  simp only [List.getLast?_append, List.getLast?_singleton] at hLast
  cases congrArg (Option.map Response.calls) hLast

end TrainKernel.User
