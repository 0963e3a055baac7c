import TrainKernel.User.Formatting

/-!
# Formats as items

A format is a list of items, characters to be copied and conversions of arguments, and its text is
these items written down. Read back by the loop, the text prints the items.
-/

namespace TrainKernel.User

open Library.Positional

/-- What stands between `%` and the conversion. -/
inductive Pad where
  | plain
  | zero
  | width (w : Nat)
deriving DecidableEq

inductive Conv where
  | char
  | str
  | unsigned
  | signed
  | hex
  | percent
deriving DecidableEq

inductive Item where
  | copy (c : Byte)
  | conv (pad : Pad) (k : Conv)
deriving DecidableEq

namespace Conv

def letter : Conv → Byte
  | char => 99
  | str => 115
  | unsigned => 117
  | signed => 100
  | hex => 120
  | percent => 37

/-- The text of an argument, before it is filled up. -/
def text : Conv → VaArg → Option (List Byte)
  | char, .word a => some [a.setWidth 8]
  | str, .text s => some s.bytes
  | unsigned, .word a => some (numeralOf 10 a.toNat)
  | signed, .word a => some (signedNumeral 10 a.toInt)
  | hex, .word a => some (numeralOf 16 a.toNat)
  | _, _ => none

end Conv

namespace Pad

def text : Pad → List Byte
  | plain => []
  | zero => [48]
  | width w => numeralOf 10 w

/-- A width is filled up with NULs from the left; the flag alone does not fill anything. -/
def fill : Pad → Conv → List Byte → List Byte
  | _, .char, text => text
  | width w, _, text => List.replicate (w - text.length) 0 ++ text
  | _, _, text => text

def Fits : Pad → Prop
  | width w => 0 < w ∧ w < 2 ^ 31
  | _ => True

end Pad

namespace Item

def text : Item → List Byte
  | copy c => [c]
  | conv pad k => 37 :: pad.text ++ [k.letter]

def WellFormed : Item → Prop
  | copy c => c ≠ 0 ∧ c ≠ 37
  | conv pad _ => pad.Fits

end Item

def formatText (items : List Item) : List Byte := items.flatMap Item.text

/-- What the items print, if each conversion finds an argument of its kind. -/
def render : List Item → List VaArg → Option (List Byte)
  | [], _ => some []
  | .copy c :: items, args => (render items args).map (c :: ·)
  | .conv _ .percent :: items, args => (render items args).map (37 :: ·)
  | .conv pad k :: items, a :: args =>
    (k.text a).bind fun text => (render items args).map (pad.fill k text ++ ·)
  | .conv _ _ :: _, [] => none

variable {n d : Nat} {c : Byte} {l rest : List Byte} {ds : List Nat} {num : BitVec 32}

theorem sa2d_digitChar (h : d < 10) : sa2d (digitChar d) = d := by
  have hAll : ∀ d : Fin 10, sa2d (digitChar d) = d := by decide
  exact hAll ⟨d, h⟩

theorem sa2iDigit_digitChar (h : d < 10) : sa2iDigit 10 (digitChar d) = true := by
  rw [sa2iDigit, sa2d_digitChar h]
  exact decide_eq_true ⟨by omega, by omega⟩

theorem sa2iDigit_letter (k : Conv) : sa2iDigit 10 k.letter = false := by
  cases k <;> decide

theorem sa2iLoop_stop (h : sa2iDigit 10 c = false) :
    sa2iLoop 10 c rest num = (c, rest, num) := by
  cases rest <;> simp [sa2iLoop, h]

theorem next_num (h : d < 10) (n : Nat) :
    BitVec.ofNat 32 n * BitVec.ofInt 32 10 + BitVec.ofInt 32 (sa2d (digitChar d)) =
      BitVec.ofNat 32 (n * 10 + d) := by
  rw [sa2d_digitChar h, BitVec.ofNat_add, BitVec.ofNat_mul]
  rfl

theorem sa2iLoop_digits (rest : List Byte) (hDigits : ∀ d' ∈ d :: ds, d' < 10)
    (hStop : sa2iDigit 10 c = false) :
    sa2iLoop 10 (digitChar d) (ds.map digitChar ++ c :: rest) (BitVec.ofNat 32 n) =
      (c, rest, BitVec.ofNat 32 ((d :: ds).foldl (fun m d => m * 10 + d) n)) := by
  induction ds generalizing d n with
  | nil =>
    have hFirst := hDigits d List.mem_cons_self
    rw [List.map_nil, List.nil_append, sa2iLoop, if_pos (sa2iDigit_digitChar hFirst),
      next_num hFirst]
    exact sa2iLoop_stop hStop
  | cons d' ds ih =>
    rw [List.forall_mem_cons] at hDigits
    rw [List.map_cons, List.cons_append, sa2iLoop, if_pos (sa2iDigit_digitChar hDigits.1),
      next_num hDigits.1]
    exact ih hDigits.2

/-- The width that `sa2i` reads is the one that was written. -/
theorem directive_width (hWidth : 0 < n) (k : Conv) :
    directive (numeralOf 10 n ++ k.letter :: rest) = ⟨k.letter, 0, BitVec.ofNat 32 n, rest⟩ := by
  obtain ⟨d, ds, hNumeral, hFirst⟩ := exists_numeral_cons 10 hWidth
  have hDigits : ∀ d' ∈ d :: ds, d' < 10 := fun d' hd' =>
    mem_numeral_lt (by decide) (hNumeral ▸ hd')
  have hRange : ∀ d : Fin 10, 0 < d.val →
      digitChar d ≠ 48 ∧ 49 ≤ digitChar d ∧ digitChar d ≤ 57 := by decide
  obtain ⟨hZero, hDigit⟩ := hRange ⟨d, hDigits d List.mem_cons_self⟩ hFirst
  have hRead := sa2iLoop_digits (n := 0) rest hDigits (sa2iDigit_letter k)
  rw [← hNumeral, foldl_numeral] at hRead
  rw [numeralOf, hNumeral, List.map_cons, List.cons_append, directive, fetch]
  simp only [if_neg hZero, if_pos hDigit, sa2i]
  rw [show (0 : BitVec 32) = BitVec.ofNat 32 0 from rfl, hRead]

def Pad.lz : Pad → Byte
  | zero => 1
  | _ => 0

def Pad.w : Pad → Nat
  | width w => w
  | _ => 0

theorem directive_conv {pad : Pad} (h : pad.Fits) (k : Conv) (rest : List Byte) :
    directive (pad.text ++ k.letter :: rest) =
      ⟨k.letter, pad.lz, BitVec.ofNat 32 pad.w, rest⟩ := by
  cases pad with
  | plain => cases k <;> rfl
  | zero => rfl
  | width w => exact directive_width h.1 k

theorem fieldRest_eq (n : Nat) (l : List Byte) : fieldRest n l = (n - l.length : Nat) := by
  induction l generalizing n with
  | nil => rfl
  | cons c l ih =>
    rw [fieldRest]
    cases n with
    | zero => simp
    | succ n =>
      rw [if_pos (by omega), Int.natCast_succ, Int.add_sub_cancel, ih, List.length_cons,
        Nat.add_sub_add_right]

theorem field_eq_fill {pad : Pad} (h : pad.Fits) {k : Conv} (hk : k ≠ .char) (fc : Byte)
    (hFill : pad.w = 0 ∨ fc = 0) : field (BitVec.ofNat 32 pad.w) fc l = pad.fill k l := by
  have hNat : (BitVec.ofNat 32 pad.w).toInt = pad.w := by
    have hSmall : pad.w < 2 ^ 31 := by
      cases pad with
      | width w => exact h.2
      | plain | zero => decide
    rw [BitVec.toInt_eq_toNat_of_lt (by rw [BitVec.toNat_ofNat]; omega), BitVec.toNat_ofNat]
    omega
  rw [field, hNat, fieldRest_eq, Int.toNat_natCast]
  cases pad with
  | width w =>
    rw [hFill.resolve_left h.1.ne']
    cases k <;> first | rfl | exact (hk rfl).elim
  | plain | zero =>
    change List.replicate (0 - l.length) fc ++ l = _
    rw [Nat.zero_sub]
    cases k <;> rfl

theorem digitChar_ne_zero (h : d < 36) : digitChar d ≠ 0 := by
  have hAll : ∀ d : Fin 36, digitChar d ≠ 0 := by decide
  exact hAll ⟨d, h⟩

theorem zero_notMem_numeralOf (base : Nat) (hBase : 1 < base ∧ base ≤ 36) (n : Nat) :
    0 ∉ numeralOf base n := by
  rw [numeralOf, List.mem_map]
  rintro ⟨d, hd, hZero⟩
  exact digitChar_ne_zero ((mem_numeral_lt hBase.1 hd).trans_le hBase.2) hZero

theorem zero_notMem_signedNumeral (z : Int) : 0 ∉ signedNumeral 10 z := by
  have hDigits := zero_notMem_numeralOf 10 (by decide) z.natAbs
  rw [signedNumeral]
  split_ifs
  · rw [List.mem_cons, not_or]
    exact ⟨by decide, hDigits⟩
  · exact hDigits

theorem cstringFrom_ok {bf : Nat → Byte} {cells i : Nat} (hText : 0 ∉ l)
    (hCells : ∀ j, ∀ c ∈ (l ++ [0])[j]?, bf (i + j) = c) (hRoom : l.length < cells) :
    cstringFrom bf cells i = .ok l := by
  induction l generalizing cells i with
  | nil =>
    obtain ⟨cells, rfl⟩ := Nat.exists_eq_add_of_le' (show 1 ≤ cells from hRoom)
    have hEnd : bf i = 0 := hCells 0 0 rfl
    rw [cstringFrom, if_pos hEnd]
  | cons c l ih =>
    rw [List.length_cons] at hRoom
    rw [List.mem_cons, not_or] at hText
    obtain ⟨cells, rfl⟩ := Nat.exists_eq_add_of_le' (show 1 ≤ cells by omega)
    have hFirst : bf i = c := hCells 0 c rfl
    have hRest : cstringFrom bf cells (i + 1) = .ok l := ih hText.2 (fun j c' hc' => by
      rw [Nat.add_assoc, Nat.add_comm 1]
      exact hCells (j + 1) c' hc') (by omega)
    rw [cstringFrom, if_neg (by rw [hFirst]; exact Ne.symm hText.1), hRest, hFirst]
    rfl

section Loop

variable {σ : Type} {put : σ → Byte → Except FormatFault σ} {s : σ} {bf : Nat → Byte}
variable {pad : Pad} {k : Conv} {a : VaArg} {args : List VaArg} {text : List Byte}
variable {items : List Item} {bytes : List Byte} {rounds : Nat}

theorem putNumber_ok (put : σ → Byte → Except FormatFault σ)
    (s : σ) {written : Except StringFault (Nat → Byte)} (h : pad.Fits) (hk : k ≠ .char)
    (hText : 0 ∉ text) (hWritten : text.length < bfSize ∧
      ∃ bf', written = .ok bf' ∧ Written bf bf' 0 (text ++ [0])) :
    ∃ bf', putNumber put written s (BitVec.ofNat 32 pad.w) pad.lz =
      (putAll put (pad.fill k text) s).bind fun s => .ok (bf', s) := by
  obtain ⟨hRoom, bf', rfl, hCells⟩ := hWritten
  have hChars := cstringFrom_ok (i := 0) hText hCells.cells hRoom
  have hField : field (BitVec.ofNat 32 pad.w) pad.lz text = pad.fill k text :=
    field_eq_fill h hk pad.lz (by cases pad <;> simp [Pad.w, Pad.lz])
  refine ⟨bf', ?_⟩
  simp [putNumber, hChars, Except.mapError, bind, Except.bind, putw_eq, hField]

theorem sui2a_written (base : BitVec 32) (hBase : 10 ≤ base.toNat ∧ base.toNat ≤ 36)
    (n : BitVec 32) : (numeralOf base.toNat n.toNat).length < bfSize ∧
      ∃ bf', sui2a n base bf 0 = .ok bf' ∧
        Written bf bf' 0 (numeralOf base.toNat n.toNat ++ [0]) := by
  obtain ⟨hRoom, hWritten⟩ := sui2a_ok n bf hBase (Nat.zero_le 1)
  rw [Nat.zero_add] at hRoom
  exact ⟨hRoom, hWritten⟩

/-- A conversion prints the text of its argument. -/
theorem convert_ok (put : σ → Byte → Except FormatFault σ) (args : List VaArg)
    (rest : List Byte) (bf : Nat → Byte) (s : σ) (h : pad.Fits) (hText : k.text a = some text) :
    ∃ bf', convert put ⟨k.letter, pad.lz, BitVec.ofNat 32 pad.w, rest⟩ (a :: args) bf s =
      (putAll put (pad.fill k text) s).bind fun s => .ok ((args, bf'), s) := by
  -- a number: what the array holds is put out, and the array is left behind
  have hNumber {written : Except StringFault (Nat → Byte)} {k : Conv} {text : List Byte}
      (hk : k ≠ .char) (hZero : 0 ∉ text) (hWritten : text.length < bfSize ∧
        ∃ bf', written = .ok bf' ∧ Written bf bf' 0 (text ++ [0])) :
      ∃ bf', ((putNumber put written s (BitVec.ofNat 32 pad.w) pad.lz).bind fun r =>
        .ok ((args, r.1), r.2) : Except FormatFault ((List VaArg × (Nat → Byte)) × σ)) =
          (putAll put (pad.fill k text) s).bind fun s => .ok ((args, bf'), s) := by
    obtain ⟨bf', hPut⟩ := putNumber_ok put s h hk hZero hWritten
    refine ⟨bf', ?_⟩
    rw [hPut]
    cases putAll put (pad.fill k text) s <;> rfl
  cases a with
  | text str =>
    cases k with
    | str =>
      obtain rfl : str.bytes = text := Option.some.inj hText
      refine ⟨bf, ?_⟩
      rw [← field_eq_fill h (by decide) 0 (.inr rfl), ← putw_eq]
      rfl
    | char | unsigned | signed | hex | percent => cases hText
  | word a =>
    cases k with
    | char =>
      obtain rfl : [a.setWidth 8] = text := Option.some.inj hText
      refine ⟨bf, ?_⟩
      have hFill : pad.fill .char [a.setWidth 8] = [a.setWidth 8] := by cases pad <;> rfl
      rw [hFill]
      change ((put s (a.setWidth 8)).bind fun s => .ok ((args, bf), s)) = _
      rw [putAll]
      cases put s (a.setWidth 8) <;> rfl
    | unsigned =>
      obtain rfl : numeralOf 10 a.toNat = text := Option.some.inj hText
      exact hNumber (by decide) (zero_notMem_numeralOf _ (by decide) _)
        (sui2a_written 10 (by decide) a)
    | signed =>
      obtain rfl : signedNumeral 10 a.toInt = text := Option.some.inj hText
      exact hNumber (by decide) (zero_notMem_signedNumeral _) (si2a_ok a bf)
    | hex =>
      obtain rfl : numeralOf 16 a.toNat = text := Option.some.inj hText
      exact hNumber (by decide) (zero_notMem_numeralOf _ (by decide) _)
        (sui2a_written 16 (by decide) a)
    | str | percent => cases hText

theorem formatText_cons (i : Item) (items : List Item) :
    formatText (i :: items) = i.text ++ formatText items := rfl

/-- The loop prints the items that stand behind the text, into any sink. -/
theorem formatLoop_items (put : σ → Byte → Except FormatFault σ) (bf : Nat → Byte) (s : σ)
    (hItems : ∀ i ∈ items, i.WellFormed)
    (hRender : render items args = some bytes) (hRounds : (formatText items).length < rounds) :
    formatLoop put rounds (formatText items) args bf s = putAll put bytes s := by
  induction items generalizing args bytes bf s rounds with
  | nil =>
    obtain rfl : [] = bytes := Option.some.inj hRender
    obtain ⟨rounds, rfl⟩ := Nat.exists_eq_add_of_le' (show 1 ≤ rounds from hRounds)
    rfl
  | cons i items ih =>
    rw [List.forall_mem_cons] at hItems
    obtain ⟨rounds, rfl⟩ := Nat.exists_eq_add_of_le' (show 1 ≤ rounds by omega)
    rw [formatText_cons, List.length_append] at hRounds
    cases i with
    | copy c =>
      obtain ⟨rest, hRest, rfl⟩ := Option.map_eq_some_iff.mp hRender
      have hLoop (s : σ) := ih bf s hItems.2 hRest (show _ < rounds by
        simp [Item.text] at hRounds
        omega)
      rw [formatText_cons, Item.text, List.singleton_append, formatLoop, if_pos hItems.1.2, putAll]
      simp only [hLoop]
    | conv pad k =>
      have hDirective := directive_conv hItems.1 k (formatText items)
      have hLetter : k.letter ≠ 0 := by cases k <;> decide
      have hSplit : formatText (.conv pad k :: items) =
          37 :: (pad.text ++ k.letter :: formatText items) := by
        simp [formatText_cons, Item.text]
      have hShort {rounds' : Nat} (h : rounds' = rounds) :
          (formatText items).length < rounds' := by
        simp [Item.text] at hRounds
        omega
      rw [hSplit, formatLoop, if_neg (by decide)]
      dsimp only
      rw [hDirective, if_neg hLetter]
      rcases eq_or_ne k .percent with rfl | hk
      · obtain ⟨rest, hRest, rfl⟩ := Option.map_eq_some_iff.mp hRender
        have hLoop (s : σ) := ih bf s hItems.2 hRest (hShort rfl)
        change (((put s 37).bind fun s => .ok ((args, bf), s)).bind fun r =>
          formatLoop put rounds (formatText items) r.1.1 r.1.2 r.2) = _
        rw [putAll]
        cases put s 37 with
        | error e => rfl
        | ok s' => exact hLoop s'
      · cases args with
        | nil => cases k <;> first | cases hRender | exact (hk rfl).elim
        | cons a args =>
          have hSome : ((k.text a).bind fun text =>
              (render items args).map (pad.fill k text ++ ·)) = some bytes := by
            cases k <;> first | exact hRender | exact (hk rfl).elim
          obtain ⟨text, hText, hRender'⟩ := Option.bind_eq_some_iff.mp hSome
          obtain ⟨rest, hRest, rfl⟩ := Option.map_eq_some_iff.mp hRender'
          obtain ⟨bf', hConvert⟩ :=
            convert_ok put args (formatText items) bf s hItems.1 hText
          rw [hConvert, putAll_append]
          cases putAll put (pad.fill k text) s with
          | error e => rfl
          | ok s' => exact ih bf' s' hItems.2 hRest (hShort rfl)

end Loop

/-- Every format prints its items. The string takes what fits into it and is full otherwise; a
line takes the same characters without a limit. -/
theorem sformat_renders {items : List Item} {args : List VaArg} {bytes l : List Byte}
    {s : StringBuf} {fmt : CString} (bf : Nat → Byte) (hFormat : fmt.bytes = formatText items)
    (hItems : ∀ i ∈ items, i.WellFormed) (hRender : render items args = some bytes)
    (h : s.Holds l) (hLength : l.length ≤ strMaxLen) :
    (l.length + bytes.length ≤ strMaxLen →
      ∃ s', sformat s fmt args bf = .ok s' ∧ s'.Holds (l ++ bytes)) ∧
    (strMaxLen < l.length + bytes.length →
      sformat s fmt args bf = .error (.string .stringFull)) := by
  have hLoop := formatLoop_items sputChar bf s hItems hRender (Nat.lt_succ_self _)
  rw [sformat, format, hFormat, hLoop]
  exact putAll_sputChar h hLength

/-- `"%5d|%x"` -/
def paddedFormat : CString := ⟨[37, 53, 100, 124, 37, 120], by decide⟩

theorem sformat_renders_padded :
    ∃ s', sformat emptyString paddedFormat [.word (-42), .word 255] (fun _ => 0) = .ok s' ∧
      s'.Holds ([] ++ [0, 0, 45, 52, 50, 124, 102, 102]) :=
  (sformat_renders (fun _ => 0)
    (show _ = formatText [.conv (.width 5) .signed, .copy 124, .conv .plain .hex] by decide)
    (by simp [Item.WellFormed, Pad.Fits]) (by decide)
    (StringBuf.Holds.sinit _) (by decide)).1
    (by decide)

end TrainKernel.User
