import Mathlib.Data.List.Basic
import Mathlib.Logic.Function.Basic

/-!
# Forms of a line

A form is a list of tokens: given characters, letters of a choice, and numbers. A reader takes a
line one character at a time and keeps what stands in the fields. It gets to the end of a form
with the whole line just when the line has that form.
-/

namespace TrainKernel.Library.LineForms

open Function

variable {F G V : Type*}

inductive Token (F G : Type*) where
  | char (c : Char)
  | letter (g : G) (allowed : Char → Bool)
  | number (f : F)

/-- What has been read into the fields. -/
@[ext]
structure Fields (F G V : Type*) where
  numbers : F → V
  letters : G → Char

def Fields.setNumber [DecidableEq F] (d : Fields F G V) (f : F) (v : V) : Fields F G V :=
  { d with numbers := update d.numbers f v }

def Fields.setLetter [DecidableEq G] (d : Fields F G V) (g : G) (c : Char) : Fields F G V :=
  { d with letters := update d.letters g c }

section Fields

variable {d : Fields F G V}

section Numbers

variable [DecidableEq F] {f : F}

theorem setNumber_self : d.setNumber f (d.numbers f) = d := by
  rw [Fields.setNumber, update_eq_self]

theorem setNumber_setNumber (v w : V) : (d.setNumber f v).setNumber f w = d.setNumber f w := by
  rw [Fields.setNumber, Fields.setNumber, Fields.setNumber, update_idem]

@[simp] theorem numbers_setNumber (v : V) : (d.setNumber f v).numbers f = v := update_self ..

@[simp] theorem numbers_setNumber_of_ne {f' : F} (h : f' ≠ f) (v : V) :
    (d.setNumber f v).numbers f' = d.numbers f' := update_of_ne h ..

@[simp] theorem letters_setNumber (v : V) : (d.setNumber f v).letters = d.letters := rfl

end Numbers

section Letters

variable [DecidableEq G] {g : G}

@[simp] theorem letters_setLetter (c : Char) : (d.setLetter g c).letters g = c := update_self ..

@[simp] theorem numbers_setLetter (c : Char) : (d.setLetter g c).numbers = d.numbers := rfl

end Letters

end Fields

/-- How a number is put together from its digits. -/
structure Radix (V : Type*) where
  zero : V
  append : V → Char → V

def Radix.number (r : Radix V) (ds : List Char) : V := ds.foldl r.append r.zero

inductive Cursor (F G : Type*) where
  | expecting (tokens : List (Token F G))
  | inNumber (f : F) (tokens : List (Token F G))
  | failed

/-- The end of a form; a number may end there. -/
def Cursor.Done : Cursor F G → Prop
  | .expecting tokens => tokens = []
  | .inNumber _ tokens => tokens = []
  | .failed => False

variable [DecidableEq F] [DecidableEq G] {r : Radix V} {c : Char} {f : F}
variable {tokens : List (Token F G)} {d d' : Fields F G V} {text ds : List Char}

def expect (r : Radix V) (d : Fields F G V) (c : Char) :
    List (Token F G) → Cursor F G × Fields F G V
  | [] => (.failed, d)
  | .char c' :: tokens => (if c = c' then .expecting tokens else .failed, d)
  | .letter g allowed :: tokens =>
    if allowed c then (.expecting tokens, d.setLetter g c) else (.failed, d)
  | .number f :: tokens =>
    if c.isDigit then (.inNumber f tokens, d.setNumber f (r.append r.zero c))
    else (.failed, d.setNumber f r.zero)

def advance (r : Radix V) (d : Fields F G V) (c : Char) :
    Cursor F G → Cursor F G × Fields F G V
  | .expecting tokens => expect r d c tokens
  | .inNumber f tokens =>
    if c.isDigit then (.inNumber f tokens, d.setNumber f (r.append (d.numbers f) c))
    else expect r d c tokens
  | .failed => (.failed, d)

def readAll (r : Radix V) : List Char → Cursor F G → Fields F G V → Cursor F G × Fields F G V
  | [], cursor, d => (cursor, d)
  | c :: text, cursor, d =>
    let (cursor, d) := advance r d c cursor
    readAll r text cursor d

/-- The line has the form, and this is what it leaves in the fields. -/
inductive Reads (r : Radix V) :
    List (Token F G) → List Char → Fields F G V → Fields F G V → Prop
  | nil {d : Fields F G V} : Reads r [] [] d d
  | char {c : Char} {tokens : List (Token F G)} {text : List Char} {d d' : Fields F G V}
      (hRest : Reads r tokens text d d') : Reads r (.char c :: tokens) (c :: text) d d'
  | letter {g : G} {allowed : Char → Bool} {c : Char} {tokens : List (Token F G)}
      {text : List Char} {d d' : Fields F G V} (hAllowed : allowed c)
      (hRest : Reads r tokens text (d.setLetter g c) d') :
      Reads r (.letter g allowed :: tokens) (c :: text) d d'
  | number {f : F} {ds : List Char} {tokens : List (Token F G)} {text : List Char}
      {d d' : Fields F G V} (hSome : ds ≠ []) (hDigits : ∀ c ∈ ds, c.isDigit)
      (hRest : Reads r tokens text (d.setNumber f (r.number ds)) d') :
      Reads r (.number f :: tokens) (ds ++ text) d d'

section Inversion

variable {r : Radix V} {tokens : List (Token F G)} {text : List Char} {d d' : Fields F G V}
variable {a : Char} {g : G} {allowed : Char → Bool} {f : F}

theorem reads_nil_iff : Reads r [] text d d' ↔ text = [] ∧ d' = d := by
  constructor
  · rintro ⟨⟩
    exact ⟨rfl, rfl⟩
  · rintro ⟨rfl, rfl⟩
    exact .nil

theorem reads_char_iff : Reads r (.char a :: tokens) text d d' ↔
    ∃ rest, text = a :: rest ∧ Reads r tokens rest d d' := by
  constructor
  · intro hReads
    cases hReads with
    | char hRest => exact ⟨_, rfl, hRest⟩
  · rintro ⟨rest, rfl, hRest⟩
    exact .char hRest

theorem reads_letter_iff : Reads r (.letter g allowed :: tokens) text d d' ↔
    ∃ c rest, text = c :: rest ∧ allowed c ∧ Reads r tokens rest (d.setLetter g c) d' := by
  constructor
  · intro hReads
    cases hReads with
    | letter hAllowed hRest => exact ⟨_, _, rfl, hAllowed, hRest⟩
  · rintro ⟨c, rest, rfl, hAllowed, hRest⟩
    exact .letter hAllowed hRest

theorem reads_number_iff : Reads r (.number f :: tokens) text d d' ↔
    ∃ ds rest, text = ds ++ rest ∧ (ds ≠ [] ∧ ∀ c ∈ ds, c.isDigit) ∧
      Reads r tokens rest (d.setNumber f (r.number ds)) d' := by
  constructor
  · intro hReads
    cases hReads with
    | number hSome hDigits hRest => exact ⟨_, _, rfl, ⟨hSome, hDigits⟩, hRest⟩
  · rintro ⟨ds, rest, rfl, ⟨hSome, hDigits⟩, hRest⟩
    exact .number hSome hDigits hRest

/-- A number at the end of a form. -/
theorem reads_number {ds : List Char} (hSome : ds ≠ []) (hDigits : ∀ c ∈ ds, c.isDigit) :
    Reads r [.number f] ds d (d.setNumber f (r.number ds)) := by
  rw [reads_number_iff]
  exact ⟨ds, [], (List.append_nil ds).symm, ⟨hSome, hDigits⟩, .nil⟩

end Inversion

/-- A number is followed by a character that cannot belong to it, or by nothing. -/
def separated : List (Token F G) → Bool
  | [] => true
  | .number _ :: [] => true
  | .number _ :: .char c :: tokens => !c.isDigit && separated tokens
  | .number _ :: _ => false
  | _ :: tokens => separated tokens

@[simp] theorem readAll_nil (cursor : Cursor F G) : readAll r [] cursor d = (cursor, d) :=
  rfl

theorem readAll_cons (cursor : Cursor F G) : readAll r (c :: text) cursor d =
    readAll r text (advance r d c cursor).1 (advance r d c cursor).2 := rfl

theorem readAll_failed : readAll r text (.failed : Cursor F G) d = (.failed, d) := by
  induction text with
  | nil => rfl
  | cons c text ih => exact ih

theorem readAll_inNumber (hDigit : ¬c.isDigit) :
    readAll r (c :: text) (.inNumber f tokens) d = readAll r (c :: text) (.expecting tokens) d := by
  simp only [readAll_cons, advance, if_neg hDigit]

/-- From the middle of a number: the rest of its digits come first. -/
def ReadsOn (r : Radix V) (f : F) (tokens : List (Token F G)) (text : List Char)
    (d d' : Fields F G V) : Prop :=
  ∃ ds rest, text = ds ++ rest ∧ (∀ c ∈ ds, c.isDigit) ∧
    Reads r tokens rest (d.setNumber f (ds.foldl r.append (d.numbers f))) d'

theorem ReadsOn.digit (hDigit : c.isDigit)
    (h : ReadsOn r f tokens text (d.setNumber f (r.append (d.numbers f) c)) d') :
    ReadsOn r f tokens (c :: text) d d' := by
  obtain ⟨ds, rest, rfl, hDigits, hRest⟩ := h
  refine ⟨c :: ds, rest, rfl, List.forall_mem_cons.mpr ⟨hDigit, hDigits⟩, ?_⟩
  rw [numbers_setNumber, setNumber_setNumber] at hRest
  exact hRest

theorem reads_of_done :
    (∀ {tokens : List (Token F G)} {d}, (readAll r text (.expecting tokens) d).1.Done →
      Reads r tokens text d (readAll r text (.expecting tokens) d).2) ∧
    ∀ {f} {tokens : List (Token F G)} {d}, (readAll r text (.inNumber f tokens) d).1.Done →
      ReadsOn r f tokens text d (readAll r text (.inNumber f tokens) d).2 := by
  induction text with
  | nil =>
    constructor
    · intro tokens d hDone
      obtain rfl : tokens = [] := hDone
      exact .nil
    · intro f tokens d hDone
      obtain rfl : tokens = [] := hDone
      refine ⟨[], [], rfl, List.forall_mem_nil _, ?_⟩
      rw [List.foldl_nil, setNumber_self]
      exact .nil
  | cons c text ih =>
    obtain ⟨ihExpecting, ihNumber⟩ := ih
    have hExpecting {tokens : List (Token F G)} {d : Fields F G V}
        (hDone : (readAll r (c :: text) (.expecting tokens) d).1.Done) :
        Reads r tokens (c :: text) d (readAll r (c :: text) (.expecting tokens) d).2 := by
      rw [readAll_cons, advance] at hDone ⊢
      cases tokens with
      | nil =>
        rw [expect, readAll_failed] at hDone
        exact hDone.elim
      | cons token tokens =>
        cases token with
        | char c' =>
          rw [expect] at hDone ⊢
          split_ifs at hDone ⊢ with hSame
          · subst hSame
            exact .char (ihExpecting hDone)
          · rw [readAll_failed] at hDone
            exact hDone.elim
        | letter g allowed =>
          rw [expect] at hDone ⊢
          split_ifs at hDone ⊢ with hAllowed
          · exact .letter hAllowed (ihExpecting hDone)
          · rw [readAll_failed] at hDone
            exact hDone.elim
        | number f =>
          rw [expect] at hDone ⊢
          split_ifs at hDone ⊢ with hDigit
          · obtain ⟨ds, rest, hText, hDigits, hRest⟩ := ihNumber hDone
            rw [numbers_setNumber, setNumber_setNumber] at hRest
            have hWord : Reads r (.number f :: tokens) ((c :: ds) ++ rest) d _ :=
              .number (List.cons_ne_nil c ds) (List.forall_mem_cons.mpr ⟨hDigit, hDigits⟩) hRest
            rw [List.cons_append, ← hText] at hWord
            exact hWord
          · rw [readAll_failed] at hDone
            exact hDone.elim
    refine ⟨hExpecting, ?_⟩
    intro f tokens d hDone
    by_cases hDigit : c.isDigit
    · rw [readAll_cons, advance, if_pos hDigit] at hDone ⊢
      exact (ihNumber hDone).digit hDigit
    · rw [readAll_inNumber hDigit] at hDone ⊢
      refine ⟨[], c :: text, rfl, List.forall_mem_nil _, ?_⟩
      rw [List.foldl_nil, setNumber_self]
      exact hExpecting hDone

def Cursor.left : Cursor F G → Nat
  | .expecting tokens => tokens.length
  | .inNumber _ tokens => tokens.length
  | .failed => 0

/-- A character that is not in a number meets a token. -/
theorem left_expect_lt {token : Token F G} :
    (expect r d c (token :: tokens)).1.left < (token :: tokens).length := by
  cases token with
  | char c' =>
    rw [expect]
    split_ifs
    · exact Nat.lt_succ_self _
    · exact Nat.succ_pos _
  | letter g allowed =>
    rw [expect]
    split_ifs
    · exact Nat.lt_succ_self _
    · exact Nat.succ_pos _
  | number f =>
    rw [expect]
    split_ifs
    · exact Nat.lt_succ_self _
    · exact Nat.succ_pos _

theorem left_expect_le : (expect r d c tokens).1.left ≤ tokens.length := by
  cases tokens with
  | nil => exact Nat.zero_le _
  | cons token tokens => exact Nat.le_of_lt left_expect_lt

theorem left_readAll_le {cursor : Cursor F G} :
    (readAll r text cursor d).1.left ≤ cursor.left := by
  induction text generalizing cursor d with
  | nil => exact Nat.le_refl _
  | cons c text ih =>
    have hStep : (advance r d c cursor).1.left ≤ cursor.left := by
      cases cursor with
      | expecting tokens => exact left_expect_le
      | inNumber f tokens =>
        rw [advance]
        split_ifs
        · exact Nat.le_refl _
        · exact left_expect_le
      | failed => exact Nat.le_refl _
    exact Nat.le_trans ih hStep

theorem left_readAll_lt {token : Token F G} :
    (readAll r (c :: text) (.expecting (token :: tokens)) d).1.left <
      (token :: tokens).length := by
  rw [readAll_cons]
  exact Nat.lt_of_le_of_lt left_readAll_le left_expect_lt

/-- Behind a number the reader is where it would be with the rest of the form to come. -/
theorem readAll_after_number (hSeparated : separated (.number f :: tokens))
    (hRest : Reads r tokens text d d') :
    (readAll r text (.inNumber f tokens) d).2 = (readAll r text (.expecting tokens) d).2 ∧
      ((readAll r text (.expecting tokens) d).1.Done →
        (readAll r text (.inNumber f tokens) d).1.Done) := by
  cases hRest with
  | nil => exact ⟨rfl, id⟩
  | char hRest =>
    rename_i c tokens text
    rw [separated, Bool.and_eq_true, Bool.not_eq_true'] at hSeparated
    rw [readAll_inNumber (by simp [hSeparated.1])]
    exact ⟨rfl, id⟩
  | letter hAllowed hRest => cases hSeparated
  | number hSome hDigits hRest => cases hSeparated

theorem readAll_digits (hDigits : ∀ c ∈ ds, c.isDigit) :
    readAll r (ds ++ text) (.inNumber f tokens) d =
      readAll r text (.inNumber f tokens)
        (d.setNumber f (ds.foldl r.append (d.numbers f))) := by
  induction ds generalizing d with
  | nil => rw [List.nil_append, List.foldl_nil, setNumber_self]
  | cons c ds ih =>
    obtain ⟨hDigit, hDigits⟩ := List.forall_mem_cons.mp hDigits
    rw [List.cons_append, readAll_cons, advance, if_pos hDigit, ih hDigits, numbers_setNumber,
      setNumber_setNumber]
    rfl

omit [DecidableEq F] [DecidableEq G] in
theorem separated_tail {token : Token F G} (h : separated (token :: tokens)) :
    separated tokens := by
  cases token with
  | char c => exact h
  | letter g allowed => exact h
  | number f =>
    cases tokens with
    | nil => rfl
    | cons token tokens =>
      cases token with
      | char c => exact (Bool.and_eq_true_iff.mp h).2
      | letter g allowed => cases h
      | number f => cases h

theorem done_of_reads (hReads : Reads r tokens text d d') (hSeparated : separated tokens) :
    (readAll r text (.expecting tokens) d).1.Done ∧
      (readAll r text (.expecting tokens) d).2 = d' := by
  induction hReads with
  | nil => exact ⟨rfl, rfl⟩
  | char hRest ih =>
    rw [readAll_cons, advance, expect, if_pos rfl]
    exact ih hSeparated
  | letter hAllowed hRest ih =>
    rw [readAll_cons, advance, expect, if_pos hAllowed]
    exact ih hSeparated
  | @number f ds tokens text d d' hSome hDigits hRest ih =>
    obtain ⟨c, ds, rfl⟩ := List.exists_cons_of_ne_nil hSome
    obtain ⟨hDigit, hDigits⟩ := List.forall_mem_cons.mp hDigits
    rw [List.cons_append, readAll_cons, advance, expect, if_pos hDigit, readAll_digits hDigits,
      numbers_setNumber, setNumber_setNumber]
    obtain ⟨hDone, hFields⟩ := ih (separated_tail hSeparated)
    obtain ⟨hSame, hEnd⟩ := readAll_after_number hSeparated hRest
    exact ⟨hEnd hDone, hSame.trans hFields⟩

end TrainKernel.Library.LineForms
