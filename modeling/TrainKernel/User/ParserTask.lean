import TrainKernel.Library.Outcome
import TrainKernel.Library.Runs
import TrainKernel.User.Controls
import TrainKernel.User.ParserForms
import TrainKernel.User.StringOperations

/-!
# The parser's task

The task reads a line from the terminal, in which backspaces are obeyed, and has it parsed. What is
seen from outside is a desk with one line on it that is answered as a whole.
-/

namespace TrainKernel.User

open Library.Outcome Library.Runs

def vtBackspace : Byte := 0x08

/-- `VT_CARRIAGE_RETURN` as it comes from the line. -/
def carriageReturn : Byte := 0x0d

def charOf (ch : Byte) : Char := Char.ofNat ch.toNat

abbrev NewTid := { tid : Int // 0 < tid }

inductive ParserTaskFault where
  | string (fault : StringFault)
  | control (fault : ControlFault)
deriving DecidableEq

/-- The variables of `parserTask`; `shown` is what has gone to the screen. -/
structure ParserTask where
  p : Parser
  run : Bool
  input : StringBuf
  controls : Controls
  shown : List Response

namespace ParserTask

/-- What stood on the stack is kept in the data of the parser. -/
def init (data : ParserData) (input : StringBuf) (controls : Controls) : ParserTask :=
  ⟨⟨.empty, data⟩, true, sinit input, controls, []⟩

/-- The loop over the string that was read; the calls of a character are carried out in `parse`. -/
def parseInput (tid : NewTid) : ParserTask → List Char → Except ParserTaskFault ParserTask
  | t, [] => .ok t
  | t, c :: input =>
    if t.run then do
      let (p, response) := parse t.controls.engineers t.p c
      let controls ← (t.controls.performAll tid response.calls).mapError .control
      parseInput tid
        { t with p, run := response.run, controls, shown := t.shown ++ [response] } input
    else .ok t

/-- From one `Getc` to the next. After a quit command there is none. -/
def getc (t : ParserTask) (key : Byte × NewTid) : Except ParserTaskFault ParserTask :=
  if ¬t.run then .ok t
  else if key.1 = vtBackspace then .ok { t with input := (spop t.input).2 }
  else do
    let input ← (sputc t.input key.1).mapError .string
    if key.1 = carriageReturn then
      let t ← parseInput key.2 t (input.bytes.map charOf)
      return { t with input := sinit input }
    else return { t with input }

def getAll (t : ParserTask) (keys : List (Byte × NewTid)) : Except ParserTaskFault ParserTask :=
  keys.foldlM getc t

end ParserTask

/-- How a line is answered. -/
inductive LineAnswer (engineers : Engineers) (line : List Char) : Response → Prop
  | documented {command : LineCommand Nat} (hLine : Documented (typed line) command) :
      LineAnswer engineers line (execute engineers command.wrapped)
  | notRecognized (hNone : ∀ command, ¬Documented (typed line) command)
      (hDeviates : ¬Deviates (typed line)) : LineAnswer engineers line notRecognized
  | calibration (hLine : typed line = ['c']) : LineAnswer engineers line calibrationDelays
  | print {rest : List Char} (hLine : typed line = 'p' :: rest) :
      LineAnswer engineers line (execute engineers .p)
  | help {rest : List Char} (hLine : typed line = '?' :: rest) :
      LineAnswer engineers line (execute engineers .help)

structure Desk where
  line : List Byte
  run : Bool
  controls : Controls

/-- An echo for each character of the line. -/
structure Echoes (line : List Byte) (echoes : List Response) : Prop where
  length_eq : echoes.length = line.length
  silent : ∀ echo ∈ echoes, echo.run = true ∧ echo.calls = []

namespace Desk

inductive Step : Desk → Byte × NewTid → Desk → List Response → Prop
  | quit {d : Desk} (hQuit : d.run = false) (key : Byte × NewTid) : Step d key d []
  | backspace {line : List Byte} {controls : Controls} (tid : NewTid) :
      Step ⟨line, true, controls⟩ (vtBackspace, tid) ⟨line.dropLast, true, controls⟩ []
  | type {line : List Byte} {controls : Controls} {ch : Byte} (tid : NewTid)
      (hRoom : line.length < strMaxLen) (hBackspace : ch ≠ vtBackspace)
      (hReturn : ch ≠ carriageReturn) :
      Step ⟨line, true, controls⟩ (ch, tid) ⟨line ++ [ch], true, controls⟩ []
  | enter {line : List Byte} {controls controls' : Controls} {tid : NewTid}
      {response : Response} {echoes : List Response} (hRoom : line.length < strMaxLen)
      (hAnswered : LineAnswer controls.engineers (line.map charOf) response)
      (hCalls : controls.performAll tid response.calls = .ok controls')
      (hEchoes : Echoes line echoes) :
      Step ⟨line, true, controls⟩ (carriageReturn, tid) ⟨[], response.run, controls'⟩
        (echoes ++ [response.shown])

/-- The line is full, or a call of its answer does not come through. -/
def Fails (d : Desk) (key : Byte × NewTid) : Prop :=
  d.run = true ∧ key.1 ≠ vtBackspace ∧
    (strMaxLen ≤ d.line.length ∨ key.1 = carriageReturn ∧
      ∃ response, LineAnswer d.controls.engineers (d.line.map charOf) response ∧
        ¬ComesThrough (d.controls.performAll key.2 response.calls))

def machine (controls : Controls) : Machine Desk (Byte × NewTid) (List Response) where
  start := ⟨[], true, controls⟩
  step := Step

end Desk

section Lines

variable {engineers : Engineers} {p : Parser} {line : List Char} {response : Response}

/-- A line is answered as it is carried out. -/
theorem exists_lineAnswer (hEmpty : p.state = .empty) (hLine : vtCarriageReturn ∉ line) :
    ∃ response, LineAnswer engineers line response ∧
      (carryOut engineers (readLine p (typed line))).shown = response.shown := by
  rcases em (∃ command, Documented (typed line) command) with ⟨command, hDocumented⟩ | hNone
  · exact ⟨_, .documented hDocumented,
      (answers_iff hLine).mp (answers_documented engineers hEmpty hLine hDocumented)⟩
  rcases em (Deviates (typed line)) with hC | hDeviates
  · rcases hC with hC | ⟨rest, -, hP | hHelp⟩
    · refine ⟨_, .calibration hC, ?_⟩
      rw [hC, readLine_cons hEmpty]
      rfl
    · refine ⟨_, .print hP, ?_⟩
      have hStay : readLine ⟨firstState 'p', p.data⟩ rest = ⟨.p, p.data⟩ :=
        readLine_stays fun c => rfl
      rw [hP, readLine_cons hEmpty, hStay]
      rfl
    · refine ⟨_, .help hHelp, ?_⟩
      have hStay : readLine ⟨firstState '?', p.data⟩ rest = ⟨.help, p.data⟩ :=
        readLine_stays fun c => rfl
      rw [hHelp, readLine_cons hEmpty, hStay]
      rfl
  · rw [not_exists] at hNone
    exact ⟨_, .notRecognized hNone hDeviates,
      (answers_iff hLine).mp (answers_notRecognized hEmpty hLine hNone hDeviates)⟩

theorem charOf_ne {ch : Byte} (h : ch ≠ carriageReturn) : charOf ch ≠ vtCarriageReturn := by
  have hAll : ∀ ch : Byte, charOf ch = vtCarriageReturn → ch = carriageReturn := by
    decide +kernel
  exact mt (hAll ch) h

theorem notMem_map_charOf {line : List Byte} (h : carriageReturn ∉ line) :
    vtCarriageReturn ∉ line.map charOf := by
  rw [List.mem_map]
  rintro ⟨ch, hMem, hReturn⟩
  exact charOf_ne (ne_of_mem_of_not_mem hMem h) hReturn

end Lines

theorem StringBuf.Holds.spop {s : StringBuf} {l : List Byte} (h : s.Holds l) :
    (spop s).2.Holds l.dropLast := by
  rcases List.eq_nil_or_concat l with rfl | ⟨l, c, rfl⟩
  · have hEmpty : User.spop s = (0, s) := if_pos h.len_eq
    rw [hEmpty]
    exact h
  · rw [List.concat_eq_append] at h ⊢
    rw [List.dropLast_concat]
    exact (StringOp.spop_concat h).2

namespace ParserTask

variable {t t' : ParserTask} {d : Desk} {key : Byte × NewTid} {tid : NewTid}

/-- What happens up to the carriage return, and at it. -/
theorem parseInput_line (tid : NewTid) (hRun : t.run = true) {line : List Byte}
    (hLine : carriageReturn ∉ line) : ∃ echoes, Echoes line echoes ∧
      parseInput tid t ((line ++ [carriageReturn]).map charOf) = (do
        let response :=
          (carryOut t.controls.engineers (readLine t.p (typed (line.map charOf)))).shown
        let controls ← (t.controls.performAll tid response.calls).mapError .control
        .ok { t with
          p := ⟨.empty, (readLine t.p (typed (line.map charOf))).data⟩
          run := response.run
          controls := controls
          shown := t.shown ++ echoes ++ [response] }) := by
  induction line generalizing t with
  | nil =>
    refine ⟨[], ⟨rfl, List.forall_mem_nil _⟩, ?_⟩
    rw [List.nil_append, List.map_singleton, parseInput, if_pos hRun]
    dsimp only
    have hParse : parse t.controls.engineers t.p (charOf carriageReturn) =
        ({ t.p with state := .empty }, (carryOut t.controls.engineers t.p).shown) := rfl
    rw [hParse, List.append_nil]
    rfl
  | cons ch line ih =>
    obtain ⟨hFirst, hLine⟩ := List.ne_and_not_mem_of_not_mem_cons hLine
    obtain ⟨hNext, hGoesOn, hCalls⟩ :=
      parse_silent t.controls.engineers t.p (charOf_ne hFirst.symm)
    rw [List.cons_append, List.map_cons, parseInput, if_pos hRun]
    dsimp only
    rw [hCalls, hNext, hGoesOn]
    change ∃ echoes, Echoes (ch :: line) echoes ∧ parseInput tid _ _ = _
    let t' : ParserTask :=
      { t with
        p := readLine t.p (typed [charOf ch])
        run := true
        shown := t.shown ++ [(parse t.controls.engineers t.p (charOf ch)).2] }
    have hEchoed : t'.run = true := rfl
    obtain ⟨echoes, hEchoes, hRest⟩ := ih hEchoed hLine
    refine ⟨(parse t.controls.engineers t.p (charOf ch)).2 :: echoes,
      ⟨congrArg Nat.succ hEchoes.length_eq,
        List.forall_mem_cons.mpr ⟨⟨hGoesOn, hCalls⟩, hEchoes.silent⟩⟩, ?_⟩
    have hLast : readLine (readLine t.p (typed [charOf ch])) (typed (line.map charOf)) =
        readLine t.p (typed ((ch :: line).map charOf)) := by
      rw [List.map_cons, typed_cons (charOf ch) (line.map charOf), readLine, readLine, readLine,
        List.foldl_append]
    have hShown : t'.shown ++ echoes =
        t.shown ++ ((parse t.controls.engineers t.p (charOf ch)).2 :: echoes) :=
      (List.append_cons ..).symm
    rw [hRest]
    dsimp only
    rw [hLast, hShown]

/-- The task has the line of the desk in its string and waits for the next key. -/
structure Agrees (t : ParserTask) (d : Desk) : Prop where
  state_eq : t.p.state = .empty
  run_eq : t.run = d.run
  holds : t.input.Holds d.line
  unreturned : carriageReturn ∉ d.line
  controls_eq : t.controls = d.controls

/-- What the task does with a line at the carriage return. -/
theorem Agrees.enter {line : List Byte} {controls : Controls} (h : t.Agrees ⟨line, true, controls⟩)
    (tid : NewTid) (hRoom : line.length < strMaxLen) :
    ∃ response echoes data input, LineAnswer controls.engineers (line.map charOf) response ∧
      Echoes line echoes ∧ input.Holds [] ∧
      getc t (carriageReturn, tid) =
        ((controls.performAll tid response.calls).mapError .control).bind fun controls' =>
          .ok ⟨⟨.empty, data⟩, response.run, input, controls', t.shown ++ echoes ++
            [response.shown]⟩ := by
  obtain ⟨input, hPut, hHolds⟩ := h.holds.sputc hRoom carriageReturn
  obtain ⟨echoes, hEchoes, hParse⟩ := parseInput_line tid h.run_eq h.unreturned
  obtain ⟨response, hAnswered, hSame⟩ :=
    exists_lineAnswer h.state_eq (notMem_map_charOf h.unreturned)
  have hEngineers : t.controls = controls := h.controls_eq
  rw [hEngineers, hSame] at hParse
  dsimp only at hParse
  refine ⟨response, echoes, (readLine t.p (typed (line.map charOf))).data, sinit input, hAnswered,
    hEchoes, .sinit input, ?_⟩
  have hBackspace : carriageReturn ≠ vtBackspace := by decide
  rw [ParserTask.getc, if_neg (not_not_intro h.run_eq), if_neg hBackspace, hPut]
  change ((parseInput tid t (input.bytes.map charOf)).bind fun t => _) = _
  rw [hHolds.bytes_eq, hParse]
  change _ = ((controls.performAll tid response.shown.calls).mapError
    ParserTaskFault.control).bind _
  cases controls.performAll tid response.shown.calls <;> rfl

theorem getc_type {ch : Byte} (h : t.run = true) (tid : NewTid) (hBackspace : ch ≠ vtBackspace)
    (hReturn : ch ≠ carriageReturn) : getc t (ch, tid) =
      ((sputc t.input ch).mapError .string).bind fun input => .ok { t with input } := by
  rw [ParserTask.getc, if_neg (not_not_intro h), if_neg hBackspace]
  simp only [if_neg hReturn]
  rfl

theorem Agrees.getc_full (h : t.Agrees d) (hRun : d.run = true) (hBackspace : key.1 ≠ vtBackspace)
    (hFull : strMaxLen ≤ d.line.length) :
    ParserTask.getc t key = .error (.string .stringFull) := by
  have hPut : sputc t.input key.1 = .error .stringFull := if_neg (by rw [h.holds.len_eq]; omega)
  rw [ParserTask.getc, if_neg (not_not_intro (h.run_eq.trans hRun)), if_neg hBackspace, hPut]
  rfl

/-- The desk makes the same step. -/
theorem Agrees.getc (h : t.Agrees d) (hGet : getc t key = .ok t') :
    ∃ d' shown, d.Step key d' shown ∧ t'.Agrees d' ∧ t'.shown = t.shown ++ shown := by
  obtain ⟨line, run, controls⟩ := d
  obtain ⟨ch, tid⟩ := key
  cases run with
  | false =>
    rw [ParserTask.getc, if_pos (by simp [h.run_eq])] at hGet
    obtain rfl := Except.ok.inj hGet
    exact ⟨_, [], .quit rfl _, h, (List.append_nil _).symm⟩
  | true =>
    have hRun : ¬¬t.run = true := not_not_intro h.run_eq
    rcases eq_or_ne ch vtBackspace with rfl | hBackspace
    · rw [ParserTask.getc, if_neg hRun, if_pos rfl] at hGet
      obtain rfl := Except.ok.inj hGet
      exact ⟨_, [], .backspace tid, ⟨h.state_eq, h.run_eq, h.holds.spop,
        fun hMem => h.unreturned (List.mem_of_mem_dropLast hMem), h.controls_eq⟩,
        (List.append_nil _).symm⟩
    rcases Nat.lt_or_ge line.length strMaxLen with hRoom | hFull
    · rcases eq_or_ne ch carriageReturn with rfl | hReturn
      · obtain ⟨response, echoes, data, input, hAnswered, hEchoes, hHolds, hEnter⟩ :=
          h.enter tid hRoom
        rw [hEnter] at hGet
        cases hCalls : controls.performAll tid response.calls with
        | error fault =>
          rw [hCalls] at hGet
          cases hGet
        | ok controls' =>
          rw [hCalls] at hGet
          obtain rfl := Except.ok.inj hGet
          exact ⟨_, _, .enter hRoom hAnswered hCalls hEchoes, ⟨rfl, rfl, hHolds, nofun, rfl⟩,
            List.append_assoc ..⟩
      · obtain ⟨input, hPut, hHolds⟩ := h.holds.sputc hRoom ch
        rw [getc_type h.run_eq tid hBackspace hReturn, hPut] at hGet
        obtain rfl := Except.ok.inj hGet
        refine ⟨_, [], .type tid hRoom hBackspace hReturn, ⟨h.state_eq, h.run_eq, hHolds, ?_,
          h.controls_eq⟩, (List.append_nil _).symm⟩
        rw [List.mem_append, List.mem_singleton, not_or]
        exact ⟨h.unreturned, hReturn.symm⟩
    · rw [h.getc_full rfl hBackspace hFull] at hGet
      cases hGet

theorem Agrees.fails {fault : ParserTaskFault} (h : t.Agrees d)
    (hGet : ParserTask.getc t key = .error fault) : d.Fails key := by
  obtain ⟨line, run, controls⟩ := d
  obtain ⟨ch, tid⟩ := key
  cases run with
  | false =>
    rw [ParserTask.getc, if_pos (by simp [h.run_eq])] at hGet
    cases hGet
  | true =>
    rcases eq_or_ne ch vtBackspace with rfl | hBackspace
    · rw [ParserTask.getc, if_neg (not_not_intro h.run_eq), if_pos rfl] at hGet
      cases hGet
    refine ⟨rfl, hBackspace, ?_⟩
    rcases Nat.lt_or_ge line.length strMaxLen with hRoom | hFull
    · rcases eq_or_ne ch carriageReturn with rfl | hReturn
      · obtain ⟨response, echoes, data, input, hAnswered, -, -, hEnter⟩ := h.enter tid hRoom
        refine .inr ⟨rfl, response, hAnswered, ?_⟩
        rintro ⟨controls', hCalls⟩
        rw [hEnter, hCalls] at hGet
        cases hGet
      · obtain ⟨input, hPut, -⟩ := h.holds.sputc hRoom ch
        rw [getc_type h.run_eq tid hBackspace hReturn, hPut] at hGet
        cases hGet
    · exact .inl hFull

theorem getAll_concat (t : ParserTask) (keys : List (Byte × NewTid)) (key : Byte × NewTid) :
    getAll t (keys ++ [key]) = (getAll t keys).bind fun t => ParserTask.getc t key := by
  rw [getAll, getAll, List.foldlM_append]
  change (List.foldlM _ t keys >>= fun t => ParserTask.getc t key >>= pure) = _
  simp only [bind_pure]
  rfl

variable {data : ParserData} {input : StringBuf} {controls : Controls}
variable {keys : List (Byte × NewTid)}

theorem getAll_agrees (hGet : (init data input controls).getAll keys = .ok t) :
    ∃ h d, (Desk.machine controls).Run (fun _ _ _ => True) h d ∧ h.map (·.1) = keys ∧
      t.Agrees d ∧ t.shown = h.flatMap (·.2) := by
  induction keys using List.reverseRecOn generalizing t with
  | nil =>
    obtain rfl := Except.ok.inj hGet
    exact ⟨[], _, .start, rfl, ⟨rfl, rfl, .sinit input, nofun, rfl⟩, rfl⟩
  | append_singleton keys key ih =>
    rw [getAll_concat] at hGet
    obtain ⟨t₁, hBefore, hLast⟩ := exists_of_bind_eq_ok hGet
    obtain ⟨h, d, hRun, rfl, hAgrees, hShown⟩ := ih hBefore
    obtain ⟨d', shown, hStep, hAgrees', hShown'⟩ := hAgrees.getc hLast
    refine ⟨_, d', hRun.next trivial hStep, ?_, hAgrees', ?_⟩
    · rw [List.map_append, List.map_singleton]
    · rw [hShown', hShown, List.flatMap_append, List.flatMap_singleton]

theorem getAll_fails {fault : ParserTaskFault}
    (hGet : (init data input controls).getAll keys = .error fault) :
    ∃ before key after h d, keys = before ++ key :: after ∧
      (Desk.machine controls).Run (fun _ _ _ => True) h d ∧ h.map (·.1) = before ∧
        d.Fails key := by
  induction keys using List.reverseRecOn with
  | nil => cases hGet
  | append_singleton keys key ih =>
    rw [getAll_concat] at hGet
    cases hBefore : (init data input controls).getAll keys with
    | error fault' =>
      rw [hBefore] at hGet
      obtain rfl := Except.error.inj hGet
      obtain ⟨before, key', after, h, d, rfl, hRun, hKeys, hFails⟩ := ih hBefore
      refine ⟨before, key', after ++ [key], h, d, ?_, hRun, hKeys, hFails⟩
      rw [List.append_assoc, List.cons_append]
    | ok t =>
      rw [hBefore] at hGet
      obtain ⟨h, d, hRun, hKeys, hAgrees, -⟩ := getAll_agrees hBefore
      exact ⟨keys, key, [], h, d, rfl, hRun, hKeys, hAgrees.fails hGet⟩

end ParserTask

/-- Whatever is typed, the task answers the lines of the desk one after the other, and it fails
only where a line is full or a call of an answer does not come through. -/
theorem parserTask_answers_lines (data : ParserData) (input : StringBuf) (controls : Controls)
    (keys : List (Byte × NewTid)) :
    (∀ t, (ParserTask.init data input controls).getAll keys = .ok t → ∃ h d,
      (Desk.machine controls).Run (fun _ _ _ => True) h d ∧ h.map (·.1) = keys ∧
        t.shown = h.flatMap (·.2) ∧ t.run = d.run ∧ t.controls = d.controls ∧
        t.input.Holds d.line) ∧
    ∀ fault, (ParserTask.init data input controls).getAll keys = .error fault →
      ∃ before key after h d, keys = before ++ key :: after ∧
        (Desk.machine controls).Run (fun _ _ _ => True) h d ∧ h.map (·.1) = before ∧
          d.Fails key := by
  refine ⟨fun t hGet => ?_, fun fault => ParserTask.getAll_fails⟩
  obtain ⟨h, d, hRun, hKeys, hAgrees, hShown⟩ := ParserTask.getAll_agrees hGet
  exact ⟨h, d, hRun, hKeys, hShown, hAgrees.run_eq, hAgrees.controls_eq, hAgrees.holds⟩

end TrainKernel.User
