import Mathlib.Data.List.DropRight
import TrainKernel.Library.Reports

/-!
# The lines of a track description

A description of a track is read line by line. A line that ends with a colon begins a section, and
every loop of the parser reads as far as the next such line.
-/

namespace TrainKernel.TrackData

open Library.Reports

abbrev Text := List Char

structure Error where
  y : Nat
  msg : Text
deriving DecidableEq, Repr

def removeJunk (line : Text) : Text := (line.rdropWhile (· = '\n')).takeWhile (· ≠ '#')

def isspace (c : Char) : Bool :=
  c.toNat ∈ [9, 10, 11, 12, 13, 28, 29, 30, 31, 32, 133, 160, 5760, 8192, 8193, 8194, 8195, 8196,
    8197, 8198, 8199, 8200, 8201, 8202, 8232, 8233, 8239, 8287, 12288]

def split (line : Text) : List Text := (line.splitOnP isspace).filter (· ≠ [])

def endsWithColon (line : Text) : Bool := line.getLast? = some ':'

/-- The zeros among the decimal digits of Unicode 14. The nine other digits of a script follow its
zero. -/
def zeros : List Nat :=
  [48, 1632, 1776, 1984, 2406, 2534, 2662, 2790, 2918, 3046, 3174, 3302, 3430, 3558, 3664, 3792,
   3872, 4160, 4240, 6112, 6160, 6470, 6608, 6784, 6800, 6992, 7088, 7232, 7248, 42528, 43216,
   43264, 43472, 43504, 43600, 44016, 65296, 66720, 68912, 69734, 69872, 69942, 70096, 70384,
   70736, 70864, 71248, 71360, 71472, 71904, 72016, 72784, 73040, 73120, 92768, 92864, 93008,
   120782, 120792, 120802, 120812, 120822, 123200, 123632, 125264, 130032]

def digit (c : Char) : Option Nat :=
  (zeros.find? fun z => z ≤ c.toNat ∧ c.toNat < z + 10).map fun z => c.toNat - z

/-- The digits behind the first one. -/
def moreDigits (n : Nat) : Text → Option Nat
  | [] => some n
  | '_' :: c :: rest => (digit c).bind fun d => moreDigits (10 * n + d) rest
  | c :: rest => (digit c).bind fun d => moreDigits (10 * n + d) rest

/-- A numeral with more digits is none to `int`. -/
def maxStrDigits : Nat := 4300

def digits : Text → Option Nat
  | [] => none
  | c :: rest =>
    if maxStrDigits < ((c :: rest).filter (· ≠ '_')).length then none
    else (digit c).bind fun d => moreDigits d rest

def int : Text → Option Int
  | '+' :: rest => (digits rest).map Int.ofNat
  | '-' :: rest => (digits rest).map fun n => -(n : Int)
  | text => (digits text).map Int.ofNat

/-- The lines from one that ends with a colon to the next. -/
structure Section where
  y : Nat
  header : Text
  body : List Text

/-- Where the parser stands when it has read the section. -/
def Section.endY (s : Section) : Nat := s.y + 1 + s.body.length

/-- The lines before the first section, and the sections. -/
def sections : Nat → List Text → List Text × List Section
  | _, [] => ([], [])
  | y, line :: lines =>
    let (body, rest) := sections (y + 1) lines
    if endsWithColon line then ([], ⟨y, line, body⟩ :: rest) else (line :: body, rest)

/-- A line of a section that is not empty. -/
structure Property where
  y : Nat
  key : Text
  args : List Text
deriving DecidableEq

def property (y : Nat) (line : Text) : Option Property :=
  match split line with
  | [] => none
  | key :: args => some ⟨y, key, args⟩

def properties (y : Nat) (lines : List Text) : List Property :=
  (lines.zipIdx y).filterMap fun line => property line.2 line.1

def Section.properties (s : Section) : List Property := TrackData.properties (s.y + 1) s.body

example : split "  distance 231 mm".toList = ["distance".toList, "231".toList, "mm".toList] := by
  decide

example : int "-1_0".toList = some (-10) := by decide

example : int "٤٠٠".toList = some 400 := by decide +kernel

end TrainKernel.TrackData
