import TrainKernel.User.Formatting

/-!
# Busy-waiting output

The routines for diagnosis have formatting of their own, which sends its characters to a serial
line. It prints what `sformat` appends to a string.
-/

namespace TrainKernel.User

/-- The characters of `COM1` or `COM2`; on another channel nothing is written. -/
def bwputc (channel : Nat) (out : List Byte) (c : Byte) : List Byte :=
  if channel = 0 ∨ channel = 1 then out ++ [c] else out

/-- `while( *p++ && n > 0 ) n--` -/
def bwputwRest : List Byte → Int → Int
  | [], n => n
  | _ :: p, n => if n > 0 then bwputwRest p (n - 1) else n

def bwputw (channel : Nat) (out : List Byte) (n : BitVec 32) (fc : Byte) (bf : List Byte) :
    List Byte :=
  let out := (List.replicate (bwputwRest bf n.toInt).toNat fc).foldl (bwputc channel) out
  bf.foldl (bwputc channel) out

def bwa2d (ch : Byte) : Int :=
  if ch ≥ 48 ∧ ch ≤ 57 then ch.toNat - 48
  else if ch ≥ 97 ∧ ch ≤ 102 then ch.toNat - 97 + 10
  else if ch ≥ 65 ∧ ch ≤ 70 then ch.toNat - 65 + 10
  else -1

/-- The character that is not a digit, where the text goes on, and the number. -/
def bwa2i (base : Int) (ch : Byte) (src : List Byte) (num : BitVec 32) :
    Byte × List Byte × BitVec 32 :=
  let dgt := bwa2d ch
  if dgt < 0 ∨ dgt > base then (ch, src, num)
  else
    let num := num * BitVec.ofInt 32 base + BitVec.ofInt 32 dgt
    match src with
    | [] => (0, [], num)
    | ch :: p => bwa2i base ch p num

/-- `n` is the number of digits so far, and `bf + i` is where the next one goes. -/
def bwui2aLoop (base : BitVec 32) :
    Nat → BitVec 32 → BitVec 32 → Nat → Nat → (Nat → Byte) →
      Except StringFault ((Nat → Byte) × Nat)
  | 0, _, _, _, _, _ => .error .endless
  | rounds + 1, num, d, n, i, bf =>
    if d ≠ 0 then
      let dgt := num / d
      if n ≠ 0 ∨ dgt.toInt > 0 ∨ d / base = 0 then do
        let offset : BitVec 32 := if dgt.toInt < 10 then 48 else 97 - 10
        let bf ← storeChar bf i ((dgt + offset).setWidth 8)
        bwui2aLoop base rounds (num % d) (d / base) (n + 1) (i + 1) bf
      else bwui2aLoop base rounds (num % d) (d / base) n i bf
    else .ok (bf, i)

def bwui2a (num base : BitVec 32) (bf : Nat → Byte) (i : Nat) :
    Except StringFault (Nat → Byte) := do
  let d ← divisorLoop base num maxRounds 1
  let (bf, i) ← bwui2aLoop base maxRounds num d 0 i bf
  storeChar bf i 0

def bwi2a (num : BitVec 32) (bf : Nat → Byte) : Except StringFault (Nat → Byte) :=
  if num.toInt ≥ 0 then bwui2a num 10 bf 0
  else do
    let bf ← storeChar bf 0 45
    bwui2a (-num) 10 bf 1

/-- The first `switch`, with the character behind the `%`. -/
def bwdirective (ch : Byte) (fmt : List Byte) : Directive :=
  if ch = 48 then ⟨(fetch fmt).1, 1, 0, (fetch fmt).2⟩
  else if ch ∈ [49, 50, 51, 52, 53, 54, 55, 56, 57] then
    let (ch, fmt, w) := bwa2i 10 ch fmt 0
    ⟨ch, 0, w, fmt⟩
  else ⟨ch, 0, 0, fmt⟩

/-- What the loop of `bwformat` works on besides the format. -/
structure BwState where
  args : List VaArg
  bf : Nat → Byte
  out : List Byte

def bwnumber (channel : Nat) (d : Directive) (args : List VaArg) (out : List Byte)
    (written : Except StringFault (Nat → Byte)) : Except FormatFault BwState := do
  let bf ← written.mapError .string
  let chars ← cstringFrom bf bfSize 0
  .ok ⟨args, bf, bwputw channel out d.w d.lz chars⟩

/-- The second `switch`. -/
def bwconvert (channel : Nat) (d : Directive) (s : BwState) : Except FormatFault BwState :=
  match d.ch with
  | 99 =>
    match s.args with
    | .word a :: args => .ok ⟨args, s.bf, bwputc channel s.out (a.setWidth 8)⟩
    | _ => .error .badArgument
  | 115 =>
    match s.args with
    | .text str :: args => .ok ⟨args, s.bf, bwputw channel s.out d.w 0 str.bytes⟩
    | _ => .error .badArgument
  | 117 =>
    match s.args with
    | .word a :: args => bwnumber channel d args s.out (bwui2a a 10 s.bf 0)
    | _ => .error .badArgument
  | 100 =>
    match s.args with
    | .word a :: args => bwnumber channel d args s.out (bwi2a a s.bf)
    | _ => .error .badArgument
  | 120 =>
    match s.args with
    | .word a :: args => bwnumber channel d args s.out (bwui2a a 16 s.bf 0)
    | _ => .error .badArgument
  | 37 => .ok { s with out := bwputc channel s.out d.ch }
  | _ => .ok s

def bwformatLoop (channel : Nat) : Nat → List Byte → BwState → Except FormatFault (List Byte)
  | 0, _, _ => .error (.string .endless)
  | _ + 1, [], s => .ok s.out
  | rounds + 1, ch :: fmt, s =>
    if ch = 37 then
      let d := bwdirective (fetch fmt).1 (fetch fmt).2
      if d.ch = 0 then .ok s.out
      else do
        let s ← bwconvert channel d s
        bwformatLoop channel rounds d.fmt s
    else bwformatLoop channel rounds fmt { s with out := bwputc channel s.out ch }

/-- The characters that are sent. -/
def bwformat (channel : Nat) (fmt : CString) (args : List VaArg) (bf : Nat → Byte) :
    Except FormatFault (List Byte) :=
  bwformatLoop channel (fmt.bytes.length + 1) fmt.bytes ⟨args, bf, []⟩

variable {channel : Nat} {s : StringBuf} {l : List Byte} {fmt : CString} {args : List VaArg}
variable {bf : Nat → Byte}

theorem bwputwRest_eq (l : List Byte) (n : Int) : bwputwRest l n = fieldRest n l := by
  induction l generalizing n with
  | nil => rfl
  | cons c l ih => rw [bwputwRest, fieldRest, ih]

theorem bwa2d_eq (ch : Byte) : bwa2d ch = sa2d ch := rfl

theorem sa2iDigit_iff (base : Int) (ch : Byte) :
    sa2iDigit base ch = true ↔ ¬(bwa2d ch < 0 ∨ bwa2d ch > base) := by
  rw [sa2iDigit, ← bwa2d_eq, decide_eq_true_iff]
  omega

theorem bwa2i_eq (base : Int) (ch : Byte) (src : List Byte) (num : BitVec 32) :
    bwa2i base ch src num = sa2iLoop base ch src num := by
  induction src generalizing ch num with
  | nil =>
    rw [bwa2i, sa2iLoop]
    simp only [sa2iDigit_iff, ite_not]
    rfl
  | cons next src ih =>
    rw [bwa2i, sa2iLoop]
    simp only [sa2iDigit_iff, ite_not, ih]
    rfl

theorem bwui2aLoop_eq (base : BitVec 32) (rounds : Nat) (num d : BitVec 32) (n i : Nat)
    (bf : Nat → Byte) :
    bwui2aLoop base rounds num d n i bf = sui2aLoop base rounds d num n i bf := by
  induction rounds generalizing num d n i bf with
  | zero => rfl
  | succ rounds ih =>
    rw [bwui2aLoop, sui2aLoop]
    rw [ite_not]
    simp only [ih]
    rfl

theorem bwui2a_eq (num base : BitVec 32) (bf : Nat → Byte) (i : Nat) :
    bwui2a num base bf i = sui2a num base bf i := by
  simp only [bwui2a, sui2a, bwui2aLoop_eq]

theorem bwi2a_eq (num : BitVec 32) (bf : Nat → Byte) : bwi2a num bf = si2a num bf := by
  rw [bwi2a, si2a]
  simp only [bwui2a_eq, ge_iff_le]
  split_ifs
  · omega
  · rfl
  · rfl
  · omega

theorem bwdirective_eq (fmt : List Byte) :
    bwdirective (fetch fmt).1 (fetch fmt).2 = directive fmt := by
  have hDigits (ch : Byte) :
      ch ∈ ([49, 50, 51, 52, 53, 54, 55, 56, 57] : List Byte) ↔ 49 ≤ ch ∧ ch ≤ 57 := by
    simp only [List.mem_cons, List.not_mem_nil, or_false]
    bv_omega
  rw [bwdirective, directive]
  simp only [hDigits, bwa2i_eq, sa2i]

/-- One character put out on a line. -/
def lineChar (channel : Nat) (out : List Byte) (c : Byte) : Except FormatFault (List Byte) :=
  .ok (bwputc channel out c)

theorem putAll_lineChar (l out : List Byte) :
    putAll (lineChar channel) l out = .ok (l.foldl (bwputc channel) out) := by
  induction l generalizing out with
  | nil => rfl
  | cons c l ih => exact ih _

theorem bwputw_eq (out : List Byte) (n : BitVec 32) (fc : Byte) (l : List Byte) :
    putw (lineChar channel) out n fc l = .ok (bwputw channel out n fc l) := by
  rw [putw_eq, putAll_lineChar, field, List.foldl_append, bwputw, bwputwRest_eq]

theorem bwnumber_eq (d : Directive) (args : List VaArg) (out : List Byte)
    (written : Except StringFault (Nat → Byte)) :
    ((putNumber (lineChar channel) written out d.w d.lz).bind fun r => .ok ((args, r.1), r.2)) =
      (bwnumber channel d args out written).map fun s => ((s.args, s.bf), s.out) := by
  cases written with
  | error e => rfl
  | ok bf =>
    cases hChars : cstringFrom bf bfSize 0 <;>
      simp [putNumber, bwnumber, hChars, Except.mapError, bind, Except.bind, Except.map, bwputw_eq]

theorem bwconvert_eq (d : Directive) (args : List VaArg) (bf : Nat → Byte) (out : List Byte) :
    convert (lineChar channel) d args bf out =
      (bwconvert channel d ⟨args, bf, out⟩).map fun s => ((s.args, s.bf), s.out) := by
  rcases d with ⟨ch, lz, w, fmt⟩
  rw [bwconvert]
  split
  case h_1 hCh =>
    obtain rfl : ch = 99 := hCh
    rcases args with _ | ⟨a | str, args⟩ <;> rfl
  case h_2 hCh =>
    obtain rfl : ch = 115 := hCh
    rcases args with _ | ⟨a | str, args⟩
    · rfl
    · rfl
    · change (putw (lineChar channel) out w 0 str.bytes).bind _ = _
      rw [bwputw_eq]
      rfl
  case h_3 hCh =>
    obtain rfl : ch = 117 := hCh
    rcases args with _ | ⟨a | str, args⟩
    · rfl
    · simp only [bwui2a_eq]
      exact bwnumber_eq ..
    · rfl
  case h_4 hCh =>
    obtain rfl : ch = 100 := hCh
    rcases args with _ | ⟨a | str, args⟩
    · rfl
    · simp only [bwi2a_eq]
      exact bwnumber_eq ..
    · rfl
  case h_5 hCh =>
    obtain rfl : ch = 120 := hCh
    rcases args with _ | ⟨a | str, args⟩
    · rfl
    · simp only [bwui2a_eq]
      exact bwnumber_eq ..
    · rfl
  case h_6 hCh =>
    obtain rfl : ch = 37 := hCh
    rfl
  case h_7 h99 h115 h117 h100 h120 h37 =>
    simp only [convert]
    rw [if_neg (show ¬ch = 99 from h99), if_neg (show ¬ch = 115 from h115),
      if_neg (show ¬ch = 117 from h117), if_neg (show ¬ch = 100 from h100),
      if_neg (show ¬ch = 120 from h120), if_neg (show ¬ch = 37 from h37)]
    rfl

theorem bwformatLoop_eq (rounds : Nat) (fmt : List Byte) (args : List VaArg) (bf : Nat → Byte)
    (out : List Byte) : bwformatLoop channel rounds fmt ⟨args, bf, out⟩ =
      formatLoop (lineChar channel) rounds fmt args bf out := by
  induction rounds generalizing fmt args bf out with
  | zero => rfl
  | succ rounds ih =>
    cases fmt with
    | nil => rfl
    | cons ch fmt =>
      rw [bwformatLoop, formatLoop]
      rcases eq_or_ne ch 37 with hPercent | hCopy
      case inr =>
        rw [if_neg hCopy, if_pos hCopy, ih]
        rfl
      rw [if_pos hPercent, if_neg (not_not.mpr hPercent)]
      dsimp only
      rw [bwdirective_eq, bwconvert_eq]
      split_ifs
      · rfl
      · cases bwconvert channel (directive fmt) ⟨args, bf, out⟩ with
        | error e => rfl
        | ok s => exact ih _ s.args s.bf s.out

/-- A valid channel takes every character. -/
theorem foldl_bwputc (h : channel = 0 ∨ channel = 1) (l out : List Byte) :
    l.foldl (bwputc channel) out = out ++ l := by
  induction l generalizing out with
  | nil => exact (List.append_nil out).symm
  | cons c l ih => rw [List.foldl_cons, ih, bwputc, if_pos h, ← List.append_cons]

/-- The output to a line and the output to a string agree: what `bwformat` writes is what `sformat`
appends, as long as the string has room, and one fails where the other does. -/
theorem sformat_agrees (hChannel : channel = 0 ∨ channel = 1) (h : s.Holds l)
    (hLength : l.length ≤ strMaxLen) :
    (∀ bytes, bwformat channel fmt args bf = .ok bytes →
      (l.length + bytes.length ≤ strMaxLen →
        ∃ s', sformat s fmt args bf = .ok s' ∧ s'.Holds (l ++ bytes)) ∧
      (strMaxLen < l.length + bytes.length →
        sformat s fmt args bf = .error (.string .stringFull))) ∧
    ∀ e, bwformat channel fmt args bf = .error e → ∃ e', sformat s fmt args bf = .error e' := by
  rw [bwformat, bwformatLoop_eq, sformat, format]
  rcases formatLoop_cases (fmt.bytes.length + 1) fmt.bytes args bf with ⟨printed, hRun⟩ | hRun
  · rw [hRun, hRun, putAll_lineChar, foldl_bwputc hChannel, List.nil_append]
    refine ⟨fun bytes hBytes => ?_, nofun⟩
    obtain rfl : printed = bytes := Except.ok.inj hBytes
    exact putAll_sputChar h hLength
  · refine ⟨fun bytes hBytes => ?_, fun e _ => hRun _ _ s⟩
    obtain ⟨e, hFault⟩ := hRun _ (lineChar channel) []
    cases hFault.symm.trans hBytes

/-- `"%4d%c"` -/
def signedFormat : CString := ⟨[37, 52, 100, 37, 99], by decide⟩

theorem sformat_agrees_signed :
    ∃ s', sformat emptyString signedFormat [.word (-42), .word 65] (fun _ => 0) = .ok s' ∧
      s'.Holds ([] ++ [0, 45, 52, 50, 65]) :=
  ((sformat_agrees (show 1 = 0 ∨ 1 = 1 from .inr rfl) (StringBuf.Holds.sinit _) (Nat.zero_le _)).1
    [0, 45, 52, 50, 65] (by decide +kernel)).1 (by decide)

end TrainKernel.User
