import TrainKernel.User.Controls
import TrainKernel.User.ParserForms

/-!
# The arguments of the commands

A number is kept in an `int` while it is read and checked when the line has ended. So the check is
of the number modulo `2 ^ 32`, and for some trains it lets through what the callee does not take.
-/

namespace TrainKernel.User

open Library.Int32

/-- The numbers that were typed. -/
@[simp]
def LineCommand.genuine (command : LineCommand Nat) : LineCommand Int :=
  command.map fun n : Nat => (n : Int)

/-- What 32 bits hold of them. -/
@[simp]
def LineCommand.reduced (command : LineCommand Nat) : LineCommand Int :=
  command.map fun n : Nat => ((n % 2 ^ 32 : Nat) : Int)

/-- The command has numbers, and its arguments are in the ranges that its check states. -/
@[simp]
def LineCommand.InRange : LineCommand Int → Prop
  | .go trainNumber nodeNumber =>
    (1 ≤ trainNumber ∧ trainNumber ≤ 80) ∧ 0 ≤ nodeNumber ∧ nodeNumber ≤ 143
  | .x nodeNumber distance => (0 ≤ nodeNumber ∧ nodeNumber ≤ 139) ∧ 0 ≤ distance ∧ distance ≤ 875
  | .c trainNumber trainSpeed sensorGroup sensorNumber numLoops =>
    (1 ≤ trainNumber ∧ trainNumber ≤ 80) ∧ (0 ≤ trainSpeed ∧ trainSpeed ≤ 14) ∧
      isSensorGroup sensorGroup ∧ (1 ≤ sensorNumber ∧ sensorNumber ≤ 16) ∧
      1 ≤ numLoops ∧ numLoops ≤ 20
  | .h trainNumber sensorGroup sensorNumber =>
    (0 ≤ trainNumber ∧ trainNumber ≤ 80) ∧ isSensorGroup sensorGroup ∧
      1 ≤ sensorNumber ∧ sensorNumber ≤ 16
  | .tr trainNumber trainSpeed =>
    (1 ≤ trainNumber ∧ trainNumber ≤ 80) ∧ 0 ≤ trainSpeed ∧ trainSpeed ≤ 14
  | .rv trainNumber => 1 ≤ trainNumber ∧ trainNumber ≤ 80
  | .sw turnoutNumber _ =>
    (1 ≤ turnoutNumber ∧ turnoutNumber ≤ 18) ∨ (153 ≤ turnoutNumber ∧ turnoutNumber ≤ 156)
  | .e trainNumber sensorIndex =>
    (1 ≤ trainNumber ∧ trainNumber ≤ 80) ∧ 0 ≤ sensorIndex ∧ sensorIndex < 80
  | _ => False

/-- `go` and `x` need an engineer. -/
@[simp]
def LineCommand.HasEngineer (engineers : Engineers) : LineCommand Int → Prop
  | .go trainNumber _ => engineers.tidOf trainNumber ≠ none
  | .x _ _ => engineers.infos ≠ []
  | _ => True

/-- The calls of the commands with numbers. -/
@[simp]
def ParserCall.IsNumeric : ParserCall → Prop
  | .taskDisplayAll => False
  | .drawTrackLayoutGraph _ => False
  | .printCalibrationLoop _ => False
  | .delay _ => False
  | .loadTrackStructure _ => False
  | _ => True

section Ranges

variable {f g : Nat → Int} {command : LineCommand Nat} {n : Nat}

/-- Two readings of the numbers agree if they agree on all that any range has. -/
theorem map_eq_of_inRange (h : ∀ n, 0 ≤ f n → f n ≤ 875 → g n = f n)
    (hRange : (command.map f).InRange) : command.map g = command.map f := by
  have hIn (n : Nat) (hn : 0 ≤ f n ∧ f n ≤ 875) : g n = f n := h n hn.1 hn.2
  cases command with
  | go trainNumber nodeNumber =>
    dsimp only [LineCommand.map, LineCommand.InRange] at hRange ⊢
    rw [hIn trainNumber (by omega), hIn nodeNumber (by omega)]
  | x nodeNumber distance =>
    dsimp only [LineCommand.map, LineCommand.InRange] at hRange ⊢
    rw [hIn nodeNumber (by omega), hIn distance (by omega)]
  | c trainNumber trainSpeed sensorGroup sensorNumber numLoops =>
    dsimp only [LineCommand.map, LineCommand.InRange] at hRange ⊢
    rw [hIn trainNumber (by omega), hIn trainSpeed (by omega), hIn sensorNumber (by omega),
      hIn numLoops (by omega)]
  | h trainNumber sensorGroup sensorNumber =>
    dsimp only [LineCommand.map, LineCommand.InRange] at hRange ⊢
    rw [hIn trainNumber (by omega), hIn sensorNumber (by omega)]
  | tr trainNumber trainSpeed =>
    dsimp only [LineCommand.map, LineCommand.InRange] at hRange ⊢
    rw [hIn trainNumber (by omega), hIn trainSpeed (by omega)]
  | rv trainNumber =>
    dsimp only [LineCommand.map, LineCommand.InRange] at hRange ⊢
    rw [hIn trainNumber (by omega)]
  | sw turnoutNumber direction =>
    dsimp only [LineCommand.map, LineCommand.InRange] at hRange ⊢
    rw [hIn turnoutNumber (by omega)]
  | e trainNumber sensorIndex =>
    dsimp only [LineCommand.map, LineCommand.InRange] at hRange ⊢
    rw [hIn trainNumber (by omega), hIn sensorIndex (by omega)]
  | k track => rfl
  | q => rfl
  | d => rfl
  | p => rfl
  | help => rfl

theorem wrap32_of_mod (h : ((n % 2 ^ 32 : Nat) : Int) ≤ 875) :
    wrap32 n = ((n % 2 ^ 32 : Nat) : Int) := by
  rw [wrap32, Int.bmod_eq_emod_of_lt, Int.natCast_emod]
  rw [← Int.natCast_emod]
  omega

theorem mod_of_wrap32 (h : 0 ≤ wrap32 n) : ((n % 2 ^ 32 : Nat) : Int) = wrap32 n := by
  rw [wrap32, Int.bmod_eq_emod] at h ⊢
  split_ifs at h ⊢ with hHigh
  · omega
  · omega

theorem wrapped_eq_reduced (hRange : command.reduced.InRange ∨ command.wrapped.InRange) :
    command.wrapped = command.reduced := by
  cases hRange with
  | inl hReduced => exact map_eq_of_inRange (fun n _ hHigh => wrap32_of_mod hHigh) hReduced
  | inr hWrapped => exact (map_eq_of_inRange (fun n hLow _ => mod_of_wrap32 hLow) hWrapped).symm

theorem reduced_eq_genuine (hRange : command.genuine.InRange) :
    command.reduced = command.genuine := by
  apply map_eq_of_inRange _ hRange
  intro n _ hHigh
  rw [Nat.mod_eq_of_lt]
  omega

end Ranges

/-- The calls of a command with numbers in range. -/
@[simp]
def LineCommand.calls (engineers : Engineers) : LineCommand Int → List ParserCall
  | .go trainNumber nodeNumber =>
    (engineers.tidOf trainNumber).elim [] fun tid => [.engineerGo tid nodeNumber]
  | .x nodeNumber distance =>
    engineers.infos.head?.elim [] fun info => [.engineerXMarksTheSpot info.tid nodeNumber distance]
  | .c trainNumber trainSpeed sensorGroup sensorNumber numLoops =>
    .sensorHalt trainNumber sensorGroup sensorNumber ::
      (List.replicate numLoops.toNat [.trainSetSpeed trainNumber trainSpeed, .delay 2000]).flatten
  | .h trainNumber sensorGroup sensorNumber => [.sensorHalt trainNumber sensorGroup sensorNumber]
  | .tr trainNumber trainSpeed =>
    [(engineers.tidOf trainNumber).elim (.trainSetSpeed trainNumber trainSpeed) fun tid =>
      .engineerSetSpeed tid trainSpeed]
  | .rv trainNumber =>
    [(engineers.tidOf trainNumber).elim (.trainSetReverse trainNumber) .engineerSetReverse]
  | .sw turnoutNumber direction => [.setTurnout turnoutNumber direction]
  | .e trainNumber sensorIndex => [.engineerCreate trainNumber sensorIndex]
  | _ => []

section Checks

variable {engineers : Engineers} {command : LineCommand Int}

theorem isSensorGroup_iff {c : Char} : isSensorGroup c ↔ ¬(c < 'a' ∨ 'e' < c) := by
  rw [isSensorGroup, decide_eq_true_eq, not_or, Char.not_lt, Char.not_lt]

theorem execute_calls (hRange : command.InRange) :
    (execute engineers command).calls = command.calls engineers := by
  cases command with
  | go trainNumber nodeNumber =>
    rw [execute, goCommand, if_pos ⟨hRange.1.1, hRange.1.2, hRange.2⟩, LineCommand.calls]
    cases engineers.tidOf trainNumber with
    | some tid => rfl
    | none => rfl
  | x nodeNumber distance =>
    rw [execute, xCommand, if_pos ⟨hRange.1.1, hRange.1.2, hRange.2⟩, LineCommand.calls]
    cases engineers.infos with
    | nil => rfl
    | cons info infos => rfl
  | c trainNumber trainSpeed sensorGroup sensorNumber numLoops =>
    obtain ⟨hTrain, hSpeed, hGroup, hSensor⟩ := hRange
    rw [isSensorGroup, decide_eq_true_eq] at hGroup
    rw [execute, cCommand, if_pos ⟨hTrain, hSpeed, hGroup, hSensor⟩]
    rfl
  | h trainNumber sensorGroup sensorNumber =>
    obtain ⟨hTrain, hGroup, hSensor⟩ := hRange
    rw [execute, hCommand, if_neg (by omega), if_neg (isSensorGroup_iff.mp hGroup),
      if_neg (by omega)]
    rfl
  | tr trainNumber trainSpeed =>
    dsimp only [LineCommand.InRange] at hRange
    rw [execute, trCommand, if_pos hRange, LineCommand.calls]
    cases engineers.tidOf trainNumber with
    | some tid => rfl
    | none => rfl
  | rv trainNumber =>
    dsimp only [LineCommand.InRange] at hRange
    rw [execute, rvCommand, if_pos hRange, LineCommand.calls]
    cases engineers.tidOf trainNumber with
    | some tid => rfl
    | none => rfl
  | sw turnoutNumber direction =>
    dsimp only [LineCommand.InRange] at hRange
    rw [execute, swCommand, if_pos hRange]
    rfl
  | e trainNumber sensorIndex =>
    obtain ⟨hTrain, hSensor⟩ := hRange
    rw [execute, eCommand, if_neg (by omega), if_neg (by omega)]
    rfl
  | k track => exact hRange.elim
  | q => exact hRange.elim
  | d => exact hRange.elim
  | p => exact hRange.elim
  | help => exact hRange.elim

theorem execute_idle (hRange : ¬command.InRange) :
    ∀ call ∈ (execute engineers command).calls, ¬call.IsNumeric := by
  have hNothing {calls : List ParserCall} (hCalls : calls = []) :
      ∀ call ∈ calls, ¬call.IsNumeric := by
    rw [hCalls]
    exact List.forall_mem_nil _
  cases command with
  | go trainNumber nodeNumber =>
    apply hNothing
    rw [execute, goCommand, if_neg fun h => hRange ⟨⟨h.1, h.2.1⟩, h.2.2⟩]
  | x nodeNumber distance =>
    apply hNothing
    rw [execute, xCommand, if_neg fun h => hRange ⟨⟨h.1, h.2.1⟩, h.2.2⟩]
  | c trainNumber trainSpeed sensorGroup sensorNumber numLoops =>
    apply hNothing
    rw [execute, cCommand, if_neg]
    rintro ⟨hTrain, hSpeed, hGroup, hSensor⟩
    exact hRange ⟨hTrain, hSpeed, decide_eq_true hGroup, hSensor⟩
  | h trainNumber sensorGroup sensorNumber =>
    apply hNothing
    rw [execute, hCommand]
    split_ifs with hTrain hGroup hSensor
    · rfl
    · rfl
    · rfl
    · rw [not_or, not_lt, not_lt] at hTrain hSensor
      exact absurd ⟨hTrain, isSensorGroup_iff.mpr hGroup, hSensor⟩ hRange
  | tr trainNumber trainSpeed =>
    dsimp only [LineCommand.InRange] at hRange
    apply hNothing
    rw [execute, trCommand, if_neg hRange]
  | rv trainNumber =>
    dsimp only [LineCommand.InRange] at hRange
    apply hNothing
    rw [execute, rvCommand, if_neg hRange]
  | sw turnoutNumber direction =>
    dsimp only [LineCommand.InRange] at hRange
    apply hNothing
    rw [execute, swCommand, if_neg hRange]
  | e trainNumber sensorIndex =>
    apply hNothing
    rw [execute, eCommand]
    split_ifs with hTrain hSensor
    · rfl
    · rfl
    · rw [not_or, not_lt, not_lt] at hTrain
      rw [not_or, not_lt, not_le] at hSensor
      exact absurd ⟨hTrain, hSensor⟩ hRange
  | k track => simp
  | q => simp
  | d => simp
  | p => simp
  | help => simp

/-- A command with numbers is carried out just when its check lets it through. -/
theorem execute_numeric_iff : (∃ call ∈ (execute engineers command).calls, call.IsNumeric) ↔
    command.InRange ∧ command.HasEngineer engineers := by
  by_cases hRange : command.InRange
  · rw [execute_calls hRange, and_iff_right hRange]
    cases command with
    | go trainNumber nodeNumber => cases hTid : engineers.tidOf trainNumber <;> simp [hTid]
    | x nodeNumber distance => cases hInfos : engineers.infos <;> simp [hInfos]
    | c trainNumber trainSpeed sensorGroup sensorNumber numLoops => simp
    | h trainNumber sensorGroup sensorNumber => simp
    | tr trainNumber trainSpeed => cases hTid : engineers.tidOf trainNumber <;> simp [hTid]
    | rv trainNumber => cases hTid : engineers.tidOf trainNumber <;> simp [hTid]
    | sw turnoutNumber direction => simp
    | e trainNumber sensorIndex => simp
    | k track => exact hRange.elim
    | q => exact hRange.elim
    | d => exact hRange.elim
    | p => exact hRange.elim
    | help => exact hRange.elim
  · constructor
    · rintro ⟨call, hMem, hNumeric⟩
      exact absurd hNumeric (execute_idle hRange call hMem)
    · rintro ⟨hIn, -⟩
      exact absurd hIn hRange

end Checks

/-! ## Numbers as they were typed -/

section Genuine

variable {engineers : Engineers} {p : Parser} {line : List Char} {response : Response}
variable {command : LineCommand Nat}

/-- In 32 bits the numbers are others, which are in range. -/
def LineCommand.Aliases (engineers : Engineers) (command : LineCommand Nat) : Prop :=
  command.reduced.InRange ∧ command.reduced.HasEngineer engineers ∧
    command.reduced ≠ command.genuine

/-- A command with numbers is carried out with those that were typed, if they are in range. -/
def GenuineNumbers (engineers : Engineers) (p : Parser) (line : List Char) : Prop :=
  ∀ response ∈ (parseString engineers p (line ++ [vtCarriageReturn])).2,
    (∃ call ∈ response.calls, call.IsNumeric) →
      (∃ command, Documented (typed line) command) ∧
      ∀ command, Documented (typed line) command →
        command.genuine.InRange ∧ response.calls = command.genuine.calls engineers

theorem undocumented_idle (hEmpty : p.state = .empty) (hLine : vtCarriageReturn ∉ line)
    (hNone : ∀ command, ¬Documented (typed line) command)
    (hMem : response ∈ (parseString engineers p (line ++ [vtCarriageReturn])).2) :
    ∀ call ∈ response.calls, ¬call.IsNumeric := by
  obtain ⟨answer, hAnswers, hIdle⟩ : ∃ answer, Answers engineers p line answer ∧
      ∀ call ∈ answer.calls, ¬call.IsNumeric := by
    by_cases hDeviates : Deviates (typed line)
    · obtain ⟨answer, hAnswer, hAnswers⟩ := answers_of_deviates engineers hEmpty hLine hDeviates
      refine ⟨answer, hAnswers, ?_⟩
      rw [List.mem_cons, List.mem_cons, List.mem_singleton] at hAnswer
      obtain rfl | rfl | rfl := hAnswer
      · intro call hCall
        obtain ⟨i, -, hLoop⟩ := List.mem_flatMap.mp hCall
        rw [List.mem_cons, List.mem_singleton] at hLoop
        obtain rfl | rfl := hLoop
        · exact not_false
        · exact not_false
      · simp
      · simp
    · exact ⟨notRecognized, answers_notRecognized hEmpty hLine hNone hDeviates,
        List.forall_mem_nil _⟩
  cases hAnswers.calls hMem with
  | inl hNothing =>
    rw [hNothing]
    exact List.forall_mem_nil _
  | inr hCalls =>
    rw [hCalls]
    exact hIdle

theorem not_genuineNumbers_of_aliases (hEmpty : p.state = .empty) (hLine : vtCarriageReturn ∉ line)
    (hDocumented : Documented (typed line) command) (hAliases : command.Aliases engineers) :
    ¬GenuineNumbers engineers p line := by
  intro hGenuine
  obtain ⟨hRange, hEngineer, hDiffer⟩ := hAliases
  have hAnswers := answers_documented engineers hEmpty hLine hDocumented
  rw [wrapped_eq_reduced (Or.inl hRange)] at hAnswers
  have hNumeric := execute_numeric_iff.mpr ⟨hRange, hEngineer⟩
  have hTyped := ((hGenuine _ hAnswers.mem hNumeric).2 command hDocumented).1
  exact hDiffer (reduced_eq_genuine hTyped)

theorem genuine_numbers_iff (hEmpty : p.state = .empty) (hLine : vtCarriageReturn ∉ line) :
    GenuineNumbers engineers p line ↔
      ∀ command, Documented (typed line) command → ¬command.Aliases engineers := by
  constructor
  · intro hGenuine command hDocumented hAliases
    exact not_genuineNumbers_of_aliases hEmpty hLine hDocumented hAliases hGenuine
  · intro hNone response hMem ⟨call, hCall, hNumeric⟩
    constructor
    · by_contra hUndocumented
      exact undocumented_idle hEmpty hLine (not_exists.mp hUndocumented) hMem call hCall hNumeric
    · intro command hDocumented
      have hAnswers := answers_documented engineers hEmpty hLine hDocumented
      have hCalls := (hAnswers.calls hMem).resolve_left (List.ne_nil_of_mem hCall)
      obtain ⟨hRange, hEngineer⟩ := execute_numeric_iff.mp ⟨call, hCalls ▸ hCall, hNumeric⟩
      have hWrapped := wrapped_eq_reduced (Or.inr hRange)
      rw [hWrapped] at hRange hEngineer
      have hSame : command.reduced = command.genuine := by
        by_contra hDiffer
        exact hNone command hDocumented ⟨hRange, hEngineer, hDiffer⟩
      rw [hCalls, hWrapped, execute_calls hRange, ← hSame]
      exact ⟨hRange, rfl⟩

end Genuine

/-- Train 5 is to run at speed 3. -/
theorem documented_speed : Documented (typed ['t', 'r', ' ', '5', ' ', '3']) (.tr 5 3) :=
  .tr (n := ['5']) (m := ['3']) (.of_all (List.cons_ne_nil _ _) rfl)
    (.of_all (List.cons_ne_nil _ _) rfl)

theorem genuine_numbers_iff_speed :
    GenuineNumbers noEngineers idleParser ['t', 'r', ' ', '5', ' ', '3'] := by
  apply (genuine_numbers_iff rfl (by decide)).mpr
  intro command hDocumented hAliases
  obtain rfl := documented_speed.unique hDocumented rfl
  exact hAliases.2.2 (by decide)

/-- Train 1 is meant by `4294967297`. -/
theorem not_genuineNumbers :
    ¬GenuineNumbers noEngineers idleParser
      ['t', 'r', ' ', '4', '2', '9', '4', '9', '6', '7', '2', '9', '7', ' ', '5'] := by
  apply not_genuineNumbers_of_aliases rfl (by decide)
  · exact Documented.tr (n := ['4', '2', '9', '4', '9', '6', '7', '2', '9', '7']) (m := ['5'])
      (.of_all (List.cons_ne_nil _ _) rfl) (.of_all (List.cons_ne_nil _ _) rfl)
  · have hTrain : decimal ['4', '2', '9', '4', '9', '6', '7', '2', '9', '7'] = 4294967297 := rfl
    have hSpeed : decimal ['5'] = 5 := rfl
    rw [LineCommand.Aliases, hTrain, hSpeed]
    exact ⟨by simp, trivial, by decide⟩

/-- The check of the command lets through what its callee does not take. -/
@[simp]
def LineCommand.Unchecked (engineers : Engineers) : LineCommand Int → Prop
  | .tr trainNumber _ => trainNumber = 80 ∧ engineers.tidOf trainNumber = none
  | .h trainNumber _ _ => trainNumber = 0 ∨ trainNumber = 80
  | .c trainNumber _ _ _ _ => trainNumber = 80
  | _ => False

/-- Whatever is called, no assertion on the arguments fails and no index is out of bounds. -/
def CallsComeThrough (tid : {tid : Int // 0 < tid}) (controls : Controls) (p : Parser)
    (line : List Char) : Prop :=
  ∀ response ∈ (parseString controls.engineers p (line ++ [vtCarriageReturn])).2,
    ComesThrough (controls.performAll tid response.calls)

section Callees

variable {engineers : Engineers} {p : Parser} {line : List Char} {response : Response}
variable {tid : {tid : Int // 0 < tid}} {controls : Controls}

theorem expected_of_not_numeric {call : ParserCall} (hIdle : ¬call.IsNumeric) : call.Expected := by
  cases call with
  | taskDisplayAll => trivial
  | drawTrackLayoutGraph track => trivial
  | printCalibrationLoop i => trivial
  | delay ticks => trivial
  | loadTrackStructure track => trivial
  | _ => exact absurd trivial hIdle

theorem tidOf_pos {trainNumber t : Int} (h : engineers.tidOf trainNumber = some t) : 0 < t := by
  obtain ⟨info, hFind, rfl⟩ := Option.map_eq_some_iff.mp h
  exact engineers.tid_pos info (List.mem_of_find?_eq_some hFind)

theorem documented_direction {n : Nat} {direction : Char}
    (hDocumented : Documented line (.sw n direction)) : isDirection direction := by
  cases hDocumented with
  | sw hn hDirection => exact hDirection

theorem calls_expected_iff {command : LineCommand Int} (hRange : command.InRange)
    (hDirection : ∀ n direction, command = .sw n direction → isDirection direction) :
    (∀ call ∈ command.calls engineers, call.Expected) ↔ ¬command.Unchecked engineers := by
  cases command with
  | go trainNumber nodeNumber =>
    cases hTid : engineers.tidOf trainNumber with
    | some t => simpa [hTid, tidOf_pos hTid] using hRange.2
    | none => simp [hTid]
  | x nodeNumber distance =>
    obtain ⟨⟨hLow, hHigh⟩, -⟩ := hRange
    cases hInfos : engineers.infos with
    | nil => simp [hInfos]
    | cons info infos =>
      have hTid : 0 < info.tid := engineers.tid_pos info (hInfos ▸ List.mem_cons_self)
      simp only [LineCommand.calls, hInfos, List.head?_cons, Option.elim_some,
        List.forall_mem_singleton, ParserCall.Expected, LineCommand.Unchecked, not_false_eq_true,
        iff_true]
      omega
  | c trainNumber trainSpeed sensorGroup sensorNumber numLoops =>
    obtain ⟨hTrain, hSpeed, hGroup, hSensor, -⟩ := hRange
    constructor
    · intro hExpected hEighty
      have hHalt := hExpected _ List.mem_cons_self
      exact Int.ne_of_lt hHalt.1.2 hEighty
    · intro hOther call hMem
      have hLess : 0 < trainNumber ∧ trainNumber < 80 := by
        dsimp only [LineCommand.Unchecked] at hOther
        omega
      cases hMem with
      | head => exact ⟨hLess, hGroup, hSensor⟩
      | tail _ hLoop =>
        obtain ⟨loop, hRepeat, hCall⟩ := List.mem_flatten.mp hLoop
        rw [List.eq_of_mem_replicate hRepeat, List.mem_cons, List.mem_singleton] at hCall
        obtain rfl | rfl := hCall
        · exact ⟨hLess, hSpeed⟩
        · trivial
  | h trainNumber sensorGroup sensorNumber =>
    obtain ⟨hTrain, hGroup, hSensor⟩ := hRange
    simp only [LineCommand.calls, List.forall_mem_singleton, ParserCall.Expected,
      LineCommand.Unchecked, hGroup, true_and]
    omega
  | tr trainNumber trainSpeed =>
    obtain ⟨hTrain, hSpeed⟩ := hRange
    cases hTid : engineers.tidOf trainNumber with
    | some t =>
      have hPos := tidOf_pos hTid
      simp only [LineCommand.calls, LineCommand.Unchecked, hTid, Option.elim_some,
        List.forall_mem_singleton, ParserCall.Expected, reduceCtorEq, and_false,
        not_false_eq_true, iff_true]
      exact Int.le_of_lt hPos
    | none =>
      simp only [LineCommand.calls, LineCommand.Unchecked, hTid, Option.elim_none,
        List.forall_mem_singleton, ParserCall.Expected, and_true]
      omega
  | rv trainNumber =>
    cases hTid : engineers.tidOf trainNumber with
    | some t => simpa [hTid] using Int.le_of_lt (tidOf_pos hTid)
    | none => simpa [hTid] using hRange
  | sw turnoutNumber direction =>
    have hAllowed := hDirection turnoutNumber direction rfl
    simpa [hAllowed, IsTurnout] using hRange
  | e trainNumber sensorIndex => simpa using hRange
  | k track => exact hRange.elim
  | q => exact hRange.elim
  | d => exact hRange.elim
  | p => exact hRange.elim
  | help => exact hRange.elim

theorem execute_expected_iff {command : LineCommand Nat}
    (hDocumented : Documented line command) (hRange : command.reduced.InRange) :
    (∀ call ∈ (execute engineers command.wrapped).calls, call.Expected) ↔
      ¬command.reduced.Unchecked engineers := by
  rw [wrapped_eq_reduced (Or.inl hRange), execute_calls hRange]
  apply calls_expected_iff hRange
  intro n direction hSwitch
  cases command with
  | sw turnoutNumber direction =>
    cases hSwitch
    exact documented_direction hDocumented
  | _ => cases hSwitch

theorem not_callsComeThrough_of_unchecked {command : LineCommand Nat}
    (hEmpty : p.state = .empty) (hLine : vtCarriageReturn ∉ line)
    (hDocumented : Documented (typed line) command) (hRange : command.reduced.InRange)
    (hUnchecked : command.reduced.Unchecked controls.engineers) :
    ¬CallsComeThrough tid controls p line := by
  intro hThrough
  have hAnswers := answers_documented controls.engineers hEmpty hLine hDocumented
  have hCalls := performAll_comesThrough.mp (hThrough _ hAnswers.mem)
  exact (execute_expected_iff hDocumented hRange).mp hCalls hUnchecked

theorem calls_come_through_iff (hEmpty : p.state = .empty) (hLine : vtCarriageReturn ∉ line) :
    CallsComeThrough tid controls p line ↔
      ∀ command, Documented (typed line) command →
        ¬(command.reduced.InRange ∧ command.reduced.Unchecked controls.engineers) := by
  constructor
  · intro hThrough command hDocumented ⟨hRange, hUnchecked⟩
    exact not_callsComeThrough_of_unchecked hEmpty hLine hDocumented hRange hUnchecked hThrough
  · intro hChecked response hMem
    rw [performAll_comesThrough]
    by_cases hNone : ∀ command, ¬Documented (typed line) command
    · intro call hCall
      exact expected_of_not_numeric (undocumented_idle hEmpty hLine hNone hMem call hCall)
    · obtain ⟨command, hDocumented⟩ := not_forall_not.mp hNone
      have hAnswers := answers_documented controls.engineers hEmpty hLine hDocumented
      cases hAnswers.calls hMem with
      | inl hNothing =>
        rw [hNothing]
        exact List.forall_mem_nil _
      | inr hCalls =>
        rw [hCalls]
        by_cases hRange : command.wrapped.InRange
        · have hReduced : command.reduced.InRange := wrapped_eq_reduced (Or.inr hRange) ▸ hRange
          apply (execute_expected_iff hDocumented hReduced).mpr
          intro hUnchecked
          exact hChecked command hDocumented ⟨hReduced, hUnchecked⟩
        · intro call hCall
          exact expected_of_not_numeric (execute_idle hRange call hCall)

end Callees

theorem calls_come_through_iff_speed :
    CallsComeThrough ⟨1, by decide⟩ idleControls idleParser ['t', 'r', ' ', '5', ' ', '3'] := by
  apply (calls_come_through_iff rfl (by decide)).mpr
  rintro command hDocumented ⟨-, hUnchecked⟩
  obtain rfl := documented_speed.unique hDocumented rfl
  exact absurd hUnchecked.1 (by decide)

/-- Train 80 has no place in `speeds`. -/
theorem not_callsComeThrough :
    ¬CallsComeThrough ⟨1, by decide⟩ idleControls idleParser
      ['t', 'r', ' ', '8', '0', ' ', '5'] := by
  have hTrain : decimal ['8', '0'] = 80 := rfl
  have hSpeed : decimal ['5'] = 5 := rfl
  have hDocumented : Documented (typed ['t', 'r', ' ', '8', '0', ' ', '5'])
      (.tr (decimal ['8', '0']) (decimal ['5'])) :=
    .tr (n := ['8', '0']) (m := ['5']) (.of_all (List.cons_ne_nil _ _) rfl)
      (.of_all (List.cons_ne_nil _ _) rfl)
  rw [hTrain, hSpeed] at hDocumented
  exact not_callsComeThrough_of_unchecked rfl (by decide) hDocumented (by simp) ⟨rfl, rfl⟩

end TrainKernel.User
