import TrainKernel.User.Numerals

/-!
# Formatted output

`sformat` puts its output into a string, one character after the other. What it puts out does not
depend on where the characters go, so that its loop is read here over any way of putting out one of
them.
-/

namespace TrainKernel.User

open Library.Positional

/-- A variable argument: a word, or the text to which a pointer leads. -/
inductive VaArg where
  | word (w : BitVec 32)
  | text (str : CString)

inductive FormatFault where
  | string (fault : StringFault)
  | badArgument
deriving DecidableEq

def sa2d (ch : Byte) : Int :=
  if 48 ≤ ch ∧ ch ≤ 57 then ch.toNat - 48
  else if 97 ≤ ch ∧ ch ≤ 102 then ch.toNat - 97 + 10
  else if 65 ≤ ch ∧ ch ≤ 70 then ch.toNat - 65 + 10
  else -1

/-- `*(p++)`: behind the text stands a NUL. -/
def fetch : List Byte → Byte × List Byte
  | [] => (0, [])
  | ch :: rest => (ch, rest)

/-- A digit is taken as long as it is not above the base. -/
def sa2iDigit (base : Int) (ch : Byte) : Bool := 0 ≤ sa2d ch ∧ ¬base < sa2d ch

def sa2iLoop (base : Int) : Byte → List Byte → BitVec 32 → Byte × List Byte × BitVec 32
  | ch, [], num =>
    if sa2iDigit base ch then (0, [], num * BitVec.ofInt 32 base + BitVec.ofInt 32 (sa2d ch))
    else (ch, [], num)
  | ch, next :: src, num =>
    if sa2iDigit base ch then
      sa2iLoop base next src (num * BitVec.ofInt 32 base + BitVec.ofInt 32 (sa2d ch))
    else (ch, next :: src, num)

def sa2i (ch : Byte) (src : List Byte) (base : Int) : Byte × List Byte × BitVec 32 :=
  sa2iLoop base ch src 0

/-- What a `%` introduces: the character of the conversion, the flag, the width, and the format
behind it. -/
structure Directive where
  ch : Byte
  lz : Byte
  w : BitVec 32
  fmt : List Byte

def directive (fmt : List Byte) : Directive :=
  let (ch, fmt) := fetch fmt
  if ch = 48 then
    let (ch, fmt) := fetch fmt
    ⟨ch, 1, 0, fmt⟩
  else if 49 ≤ ch ∧ ch ≤ 57 then
    let (ch, fmt, w) := sa2i ch fmt 10
    ⟨ch, 0, w, fmt⟩
  else ⟨ch, 0, 0, fmt⟩

/-- The text in an array, up to its NUL. -/
def cstringFrom (bf : Nat → Byte) : Nat → Nat → Except FormatFault (List Byte)
  | 0, _ => .error (.string .outsideBuffer)
  | cells + 1, i =>
    if bf i = 0 then .ok []
    else do
      let rest ← cstringFrom bf cells (i + 1)
      .ok (bf i :: rest)

section Sink

variable {σ : Type} (put : σ → Byte → Except FormatFault σ)

def putAll : List Byte → σ → Except FormatFault σ
  | [], s => .ok s
  | c :: rest, s => do
    let s ← put s c
    putAll rest s

/-- The first loop, `while( *p++ && n > 0 ) n--`. -/
def fieldRest : Int → List Byte → Int
  | n, [] => n
  | n, _ :: rest => if 0 < n then fieldRest (n - 1) rest else n

def putw (s : σ) (n : BitVec 32) (fc : Byte) (bf : List Byte) : Except FormatFault σ := do
  let s ← putAll put (List.replicate (fieldRest n.toInt bf).toNat fc) s
  putAll put bf s

/-- A number is first written into the array. -/
def putNumber (written : Except StringFault (Nat → Byte)) (s : σ) (w : BitVec 32) (lz : Byte) :
    Except FormatFault ((Nat → Byte) × σ) := do
  let bf ← written.mapError .string
  let chars ← cstringFrom bf bfSize 0
  let s ← putw put s w lz chars
  .ok (bf, s)

def convert (d : Directive) (args : List VaArg) (bf : Nat → Byte) (s : σ) :
    Except FormatFault ((List VaArg × (Nat → Byte)) × σ) :=
  if d.ch = 99 then
    match args with
    | .word a :: args => do
      let s ← put s (a.setWidth 8)
      .ok ((args, bf), s)
    | _ => .error .badArgument
  else if d.ch = 115 then
    match args with
    | .text str :: args => do
      let s ← putw put s d.w 0 str.bytes
      .ok ((args, bf), s)
    | _ => .error .badArgument
  else if d.ch = 117 then
    match args with
    | .word a :: args => do
      let r ← putNumber put (sui2a a 10 bf 0) s d.w d.lz
      .ok ((args, r.1), r.2)
    | _ => .error .badArgument
  else if d.ch = 100 then
    match args with
    | .word a :: args => do
      let r ← putNumber put (si2a a bf) s d.w d.lz
      .ok ((args, r.1), r.2)
    | _ => .error .badArgument
  else if d.ch = 120 then
    match args with
    | .word a :: args => do
      let r ← putNumber put (sui2a a 16 bf 0) s d.w d.lz
      .ok ((args, r.1), r.2)
    | _ => .error .badArgument
  else if d.ch = 37 then do
    let s ← put s d.ch
    .ok ((args, bf), s)
  else .ok ((args, bf), s)

def formatLoop : Nat → List Byte → List VaArg → (Nat → Byte) → σ → Except FormatFault σ
  | 0, _, _, _, _ => .error (.string .endless)
  | _ + 1, [], _, _, s => .ok s
  | rounds + 1, ch :: fmt, args, bf, s =>
    if ch ≠ 37 then do
      let s ← put s ch
      formatLoop rounds fmt args bf s
    else
      let d := directive fmt
      if d.ch = 0 then .ok s
      else do
        let ((args, bf), s) ← convert put d args bf s
        formatLoop rounds d.fmt args bf s

/-- `bf` is what the array on the stack held before. -/
def format (fmt : CString) (args : List VaArg) (bf : Nat → Byte) (s : σ) : Except FormatFault σ :=
  formatLoop put (fmt.bytes.length + 1) fmt.bytes args bf s

end Sink

def sputChar (s : StringBuf) (c : Byte) : Except FormatFault StringBuf :=
  (sputc s c).mapError .string

def sformat (s : StringBuf) (fmt : CString) (args : List VaArg) (bf : Nat → Byte) :
    Except FormatFault StringBuf := format sputChar fmt args bf s

section Sinks

variable {σ : Type} {put : σ → Byte → Except FormatFault σ} {s : σ} {a b l : List Byte}

theorem putAll_append :
    putAll put (a ++ b) s = (putAll put a s).bind (putAll put b) := by
  induction a generalizing s with
  | nil => rfl
  | cons c a ih =>
    rw [List.cons_append, putAll, putAll]
    cases put s c with
    | error e => rfl
    | ok s' => exact ih

/-- The text of a conversion, filled up to its width. -/
def field (n : BitVec 32) (fc : Byte) (bf : List Byte) : List Byte :=
  List.replicate (fieldRest n.toInt bf).toNat fc ++ bf

theorem putw_eq (n : BitVec 32) (fc : Byte) : putw put s n fc l = putAll put (field n fc l) s :=
  putAll_append.symm

/-- Whatever the sink, the same characters are put into it before the result, or it fails. -/
def Uniform {α : Type} (run : ∀ σ : Type, (σ → Byte → Except FormatFault σ) → σ →
    Except FormatFault (α × σ)) : Prop :=
  (∃ (x : α) (bytes : List Byte), ∀ σ put s,
    run σ put s = (putAll put bytes s).bind fun s => .ok (x, s)) ∨
  ∃ e, ∀ σ put s, run σ put s = .error e

theorem uniform_number (written : Except StringFault (Nat → Byte)) (w : BitVec 32) (lz : Byte) :
    Uniform fun _ put s => putNumber put written s w lz := by
  cases written with
  | error e => exact .inr ⟨_, fun _ _ _ => rfl⟩
  | ok bf =>
    cases hChars : cstringFrom bf bfSize 0 with
    | error e =>
      refine .inr ⟨e, fun σ put s => ?_⟩
      simp [putNumber, hChars, Except.mapError, bind, Except.bind]
    | ok chars =>
      refine .inl ⟨bf, field w lz chars, fun σ put s => ?_⟩
      simp [putNumber, hChars, Except.mapError, bind, Except.bind, putw_eq]

theorem Uniform.taking {α β : Type} {run : ∀ σ : Type, (σ → Byte → Except FormatFault σ) → σ →
    Except FormatFault (α × σ)} (h : Uniform run) (x : β) :
    Uniform fun σ put s => (run σ put s).bind fun r => .ok ((x, r.1), r.2) := by
  rcases h with ⟨y, bytes, hRun⟩ | ⟨e, hRun⟩
  · refine .inl ⟨(x, y), bytes, fun σ put s => ?_⟩
    simp only [hRun]
    cases putAll put bytes s <;> rfl
  · refine .inr ⟨e, fun σ put s => ?_⟩
    simp only [hRun]
    rfl

theorem uniform_error {α : Type} (e : FormatFault) :
    Uniform fun σ (_ : σ → Byte → Except FormatFault σ) (_ : σ) =>
      (.error e : Except FormatFault (α × σ)) :=
  .inr ⟨e, fun _ _ _ => rfl⟩

theorem uniform_word {α : Type} {args : List VaArg} {run : BitVec 32 → List VaArg →
      ∀ σ : Type, (σ → Byte → Except FormatFault σ) → σ → Except FormatFault (α × σ)}
    (h : ∀ a args, Uniform (run a args)) :
    Uniform fun σ put s => match args with
      | .word a :: args => run a args σ put s
      | _ => .error .badArgument := by
  cases args with
  | nil => exact uniform_error _
  | cons arg args =>
    cases arg with
    | word a => exact h a args
    | text str => exact uniform_error _

theorem uniform_convert (d : Directive) (args : List VaArg) (bf : Nat → Byte) :
    Uniform fun _ put s => convert put d args bf s := by
  have hNumber (written : BitVec 32 → Except StringFault (Nat → Byte)) (a : BitVec 32)
      (args : List VaArg) := (uniform_number (written a) d.w d.lz).taking args
  simp only [convert]
  split_ifs
  · refine uniform_word fun a args => ?_
    exact .inl ⟨(args, bf), [a.setWidth 8], fun σ put s => by
      cases h : put s (a.setWidth 8) <;> simp [putAll, h, bind, Except.bind]⟩
  · cases args with
    | nil => exact uniform_error _
    | cons arg args =>
      cases arg with
      | word a => exact uniform_error _
      | text str =>
        exact .inl ⟨(args, bf), field d.w 0 str.bytes, fun σ put s => by rw [← putw_eq]; rfl⟩
  · exact uniform_word (hNumber fun a => sui2a a 10 bf 0)
  · exact uniform_word (hNumber fun a => si2a a bf)
  · exact uniform_word (hNumber fun a => sui2a a 16 bf 0)
  · exact .inl ⟨(args, bf), [d.ch], fun σ put s => by
      cases h : put s d.ch <;> simp [putAll, h, bind, Except.bind]⟩
  · exact .inl ⟨(args, bf), [], fun σ put s => rfl⟩

/-- The loop puts the same characters into every sink, or it fails on all of them. -/
theorem formatLoop_cases (rounds : Nat) (fmt : List Byte) (args : List VaArg)
    (bf : Nat → Byte) :
    (∃ bytes, ∀ (σ : Type) put (s : σ),
      formatLoop put rounds fmt args bf s = putAll put bytes s) ∨
    ∀ (σ : Type) put (s : σ), ∃ e, formatLoop put rounds fmt args bf s = .error e := by
  induction rounds generalizing fmt args bf with
  | zero => exact .inr fun _ _ _ => ⟨_, rfl⟩
  | succ rounds ih =>
    cases fmt with
    | nil => exact .inl ⟨[], fun _ _ _ => rfl⟩
    | cons ch fmt =>
      simp only [formatLoop]
      split_ifs with hPercent hEnd
      -- a character that is copied
      · rcases ih fmt args bf with ⟨bytes, hRest⟩ | hRest
        · refine .inl ⟨ch :: bytes, fun σ put s => ?_⟩
          simp only [hRest]
          rfl
        · refine .inr fun σ put s => ?_
          cases put s ch with
          | error e => exact ⟨e, rfl⟩
          | ok s' => exact hRest σ put s'
      · exact .inl ⟨[], fun _ _ _ => rfl⟩
      -- a conversion
      · rcases uniform_convert (directive fmt) args bf with
          ⟨⟨args', bf'⟩, first, hConvert⟩ | ⟨e, hConvert⟩
        · dsimp only at hConvert
          rcases ih (directive fmt).fmt args' bf' with ⟨bytes, hRest⟩ | hRest
          · refine .inl ⟨first ++ bytes, fun σ put s => ?_⟩
            rw [hConvert, putAll_append]
            cases putAll put first s with
            | error e => rfl
            | ok s' => exact hRest σ put s'
          · refine .inr fun σ put s => ?_
            rw [hConvert]
            cases putAll put first s with
            | error e => exact ⟨e, rfl⟩
            | ok s' => exact hRest σ put s'
        · dsimp only at hConvert
          refine .inr fun σ put s => ⟨e, ?_⟩
          rw [hConvert]
          rfl

end Sinks

variable {s : StringBuf} {l bytes : List Byte}

theorem putAll_sputChar (h : s.Holds l) (hLength : l.length ≤ strMaxLen) :
    (l.length + bytes.length ≤ strMaxLen →
      ∃ s', putAll sputChar bytes s = .ok s' ∧ s'.Holds (l ++ bytes)) ∧
    (strMaxLen < l.length + bytes.length →
      putAll sputChar bytes s = .error (.string .stringFull)) := by
  induction bytes generalizing s l with
  | nil =>
    refine ⟨fun _ => ⟨s, rfl, (List.append_nil l).symm ▸ h⟩, fun hMore => ?_⟩
    rw [List.length_nil] at hMore
    omega
  | cons c bytes ih =>
    rw [List.length_cons, putAll, sputChar]
    rcases Nat.lt_or_ge l.length strMaxLen with hRoom | hFull
    · obtain ⟨s₁, hPut, hHolds⟩ := h.sputc hRoom c
      rw [hPut, List.append_cons]
      have hRest := ih hHolds (by
        rw [List.length_append, List.length_singleton]
        omega)
      rw [List.length_append, List.length_singleton, Nat.add_assoc, Nat.add_comm 1] at hRest
      exact hRest
    · refine ⟨fun hFits => by omega, fun _ => ?_⟩
      rw [sputc, if_neg (by rw [h.len_eq]; omega)]
      rfl

end TrainKernel.User
