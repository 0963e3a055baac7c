import TrainKernel.User.Strings

/-!
# The string operations on character sequences

What each operation is for, on the sequence that a string holds, and when it does that. `spop`
reads behind the last character, and the copies keep a length that is not the copy's.
-/

namespace TrainKernel.User

open Function StringBuf

inductive StringOp where
  | sputc (c : Byte)
  | spop
  | sputstr (str : CString)
  | sconcat (src : StringBuf)
  | scopy (src : CString)
  | scopystr (src : StringBuf)

namespace StringOp

variable {s : StringBuf} {l : List Byte} {c : Byte}

/-- Only `spop` gives a character. -/
def run : StringOp → StringBuf → Except StringFault (StringBuf × Option Byte)
  | sputc c, s => do return (← User.sputc s c, none)
  | spop, s => .ok ((User.spop s).2, some (User.spop s).1)
  | sputstr str, s => do return (← User.sputstr s str, none)
  | sconcat src, s => do return (← User.sconcat s src, none)
  | scopy src, s => do return (← User.scopy s src, none)
  | scopystr src, s => .ok (User.scopystr s src, none)

/-- The sequence after the operation, and the character that is given. -/
def spec : StringOp → List Byte → List Byte × Option Byte
  | sputc c, l => (l ++ [c], none)
  | spop, l => (l.dropLast, some (l.getLast?.getD 0))
  | sputstr str, l => (l ++ str.bytes, none)
  | sconcat src, l => (l ++ src.bytes, none)
  | scopy src, _ => (src.bytes, none)
  | scopystr src, _ => (src.bytes, none)

def Refines (op : StringOp) (s : StringBuf) (l : List Byte) : Prop :=
  ∃ s', op.run s = .ok (s', (op.spec l).2) ∧ s'.Holds (op.spec l).1

def Sound : StringOp → StringBuf → List Byte → Prop
  | sputc _, _, _ => True
  | spop, _, l => ∀ c ∈ l.getLast?, c = 0
  | sputstr _, _, _ => True
  | sconcat src, s, _ => s.len + src.len + 1 < strMaxLen
  | scopy src, s, _ =>
    src.bytes.length < strMaxLen ∧ s.len = 0 ∧ s.buf src.bytes.length = 0
  | scopystr src, _, _ => src.len = 0

theorem sputc_refines (h : s.Holds l) (hFits : l.length < strMaxLen) :
    (sputc c).Refines s l := by
  obtain ⟨s', hPut, hHolds⟩ := h.sputc hFits c
  refine ⟨s', ?_, hHolds⟩
  rw [run, hPut]
  rfl

theorem sputstr_refines (h : s.Holds l) (str : CString)
    (hFits : l.length + str.bytes.length ≤ strMaxLen) : (sputstr str).Refines s l := by
  obtain ⟨s', hPut, hHolds⟩ := h.sputAll hFits
  refine ⟨s', ?_, hHolds⟩
  rw [run, User.sputstr, hPut]
  rfl

theorem sconcat_refines_iff (h : s.Holds l) (src : StringBuf) :
    (sconcat src).Refines s l ↔ s.len + src.len + 1 < strMaxLen := by
  constructor
  · rintro ⟨s', hRun, -⟩
    by_contra hLong
    rw [run, User.sconcat, if_neg hLong] at hRun
    cases hRun
  · intro hShort
    have hFits : l.length + src.bytes.length ≤ strMaxLen := by
      rw [src.length_bytes, ← h.len_eq]
      omega
    obtain ⟨s', hPut, hHolds⟩ := h.sputAll hFits
    refine ⟨s', ?_, hHolds⟩
    rw [run, User.sconcat, if_pos hShort, hPut]
    rfl

/-- The NUL behind the string is what `spop` gives. -/
theorem spop_concat (h : s.Holds (l ++ [c])) :
    (User.spop s).1 = 0 ∧ (User.spop s).2.Holds l := by
  have hCells := bytes_eq_iff.mp h.bytes_eq
  have hLen : s.len = l.length + 1 := h.len_eq.trans List.length_append
  rw [User.spop, slen, if_neg (by omega)]
  refine ⟨h.terminated, ?_, update_self ..⟩
  rw [bytes_eq_iff]
  dsimp only
  refine ⟨by omega, ?_⟩
  intro i hi
  rw [update_of_ne (Nat.ne_of_lt hi), ← hCells.2 i (by omega),
    List.getElem?_append_left (by omega)]

theorem spop_refines_iff (h : s.Holds l) : spop.Refines s l ↔ ∀ c ∈ l.getLast?, c = 0 := by
  rcases List.eq_nil_or_concat l with rfl | ⟨l', c, rfl⟩
  · have hEmpty : User.spop s = (0, s) := if_pos h.len_eq
    refine iff_of_true ⟨s, ?_, h⟩ ?_
    · rw [run, hEmpty]
      rfl
    · rintro c ⟨⟩
  · rw [List.concat_eq_append] at h ⊢
    obtain ⟨hNul, hHolds⟩ := spop_concat h
    simp only [Refines, run, spec, hNul, List.getLast?_concat, List.dropLast_concat,
      Option.getD_some, Option.mem_def, Option.some.injEq, forall_eq']
    constructor
    · rintro ⟨s', hRun, -⟩
      exact (Option.some.inj (Prod.mk.inj (Except.ok.inj hRun)).2).symm
    · rintro rfl
      exact ⟨_, rfl, hHolds⟩

/-- All of a string without a NUL is copied. -/
theorem strncpy_of_notMem {src : List Byte} (h : 0 ∉ src) : strncpy src src.length = src := by
  induction src with
  | nil => rfl
  | cons c src ih =>
    rw [List.mem_cons, not_or] at h
    rw [List.length_cons, strncpy, if_neg (Ne.symm h.1), ih h.2]

theorem scopy_refines_iff (s : StringBuf) (l : List Byte) (src : CString) :
    (scopy src).Refines s l ↔
      src.bytes.length < strMaxLen ∧ s.len = 0 ∧ s.buf src.bytes.length = 0 := by
  rw [Refines, run, User.scopy]
  rw [strncpy_of_notMem src.zero_notMem]
  have hCells (i : Nat) (hi : i < src.bytes.length) :
      src.bytes[i]? = some (overwrite s.buf src.bytes i) := by
    rw [overwrite, List.getElem?_eq_getElem hi]
    rfl
  have hNul : overwrite s.buf src.bytes src.bytes.length = s.buf src.bytes.length := by
    rw [overwrite, List.getElem?_eq_none le_rfl]
    rfl
  constructor
  · rintro ⟨s', hRun, hHolds⟩
    split_ifs at hRun with hShort
    · obtain ⟨rfl, -⟩ := Prod.mk.inj (Except.ok.inj hRun)
      have hLen := hHolds.len_eq
      have hEnd := hHolds.terminated
      dsimp only [spec] at hLen hEnd
      rw [hLen, hNul] at hEnd
      exact ⟨hShort, Nat.add_eq_right.mp hLen, hEnd⟩
    · cases hRun
  · rintro ⟨hShort, hEmpty, hEnd⟩
    rw [if_pos hShort, hEmpty, Nat.zero_add]
    exact ⟨_, rfl, bytes_eq_iff.mpr ⟨rfl, hCells⟩, hNul.trans hEnd⟩

theorem scopystr_refines_iff (s : StringBuf) (l : List Byte) (src : StringBuf) :
    (scopystr src).Refines s l ↔ src.len = 0 := by
  constructor
  · rintro ⟨s', hRun, hHolds⟩
    obtain ⟨rfl, -⟩ := Prod.mk.inj (Except.ok.inj hRun)
    exact (hHolds.len_eq.trans src.length_bytes).symm
  · intro hEmpty
    have hNil : src.bytes = [] := List.eq_nil_of_length_eq_zero (src.length_bytes.trans hEmpty)
    refine ⟨_, rfl, ?_⟩
    simp only [spec, User.scopystr, hNil, hEmpty]
    exact Holds.sinit s

theorem string_operations_iff (op : StringOp) (s : StringBuf) (l : List Byte) (h : s.Holds l)
    (hFits : (op.spec l).1.length ≤ strMaxLen) : op.Refines s l ↔ op.Sound s l := by
  cases op with
  | sputc c =>
    rw [spec, List.length_append] at hFits
    exact iff_of_true (sputc_refines h hFits) trivial
  | spop => exact spop_refines_iff h
  | sputstr str =>
    rw [spec, List.length_append] at hFits
    exact iff_of_true (sputstr_refines h str hFits) trivial
  | sconcat src => exact sconcat_refines_iff h src
  | scopy src => exact scopy_refines_iff s l src
  | scopystr src => exact scopystr_refines_iff s l src

/-- The string "a" in a cleared buffer. -/
def oneLetter : StringBuf := ⟨1, fun i => if i = 0 then 97 else 0⟩

theorem oneLetter_holds : oneLetter.Holds [97] := ⟨by decide, by decide⟩

theorem string_operations_iff_letter : oneLetter.Holds [97] ∧
    ((StringOp.spop.spec [97]).1.length ≤ strMaxLen) ∧
    (StringOp.spop.Refines oneLetter [97] ↔ StringOp.spop.Sound oneLetter [97]) :=
  ⟨oneLetter_holds, by decide,
    string_operations_iff .spop oneLetter [97] oneLetter_holds (by decide)⟩

/-- What was just put in is not what `spop` gives. -/
theorem not_string_operations : ¬∀ (op : StringOp) (s : StringBuf) (l : List Byte), s.Holds l →
    (op.spec l).1.length ≤ strMaxLen → op.Refines s l := by
  intro hRefines
  have hPop := hRefines .spop oneLetter [97] oneLetter_holds (by decide)
  have hNul := spop_refines_iff oneLetter_holds |>.mp hPop 97 rfl
  revert hNul
  decide

end StringOp

end TrainKernel.User
