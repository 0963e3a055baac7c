import TrainKernel.Library.Int32
import TrainKernel.TrackData.Linking

/-!
# The generated code

For each description there is a function that fills a table of nodes, with one assignment for each
field that is not zero. What the table is worth is what the assignments make of it.
-/

namespace TrainKernel.TrackData

open Function User Library.Int32

def Kind.nodeType : Kind → NodeType
  | sensor => .sensor
  | branch => .branch
  | merge => .merge
  | enter => .enter
  | exit => .exit

/-- `DIR_AHEAD`, `DIR_STRAIGHT` and `DIR_CURVED` -/
def Way.dir : Way → Dir
  | ahead => dirAhead
  | straight => dirStraight
  | curved => dirCurved

/-- The right-hand sides are constants, and addresses in the table. -/
inductive EdgeField where
  | reverse (i : Nat) (d : Dir)
  | src (i : Nat)
  | dest (i : Nat)
  | dist (n : Int)
deriving DecidableEq

inductive Field where
  | idx (n : Int)
  | owner (n : Int)
  | name (text : Text)
  | type (t : NodeType)
  | num (n : Int)
  | reverse (i : Nat)
  | edge (d : Dir) (f : EdgeField)
deriving DecidableEq

/-- An assignment to a field of `track[i]`. -/
structure Stmt where
  i : Nat
  field : Field
deriving DecidableEq

/-- A pointer is the index of a node, or the index of a node and that of one of its edges. The
numbers are those of an `int`, to which an assignment brings its right-hand side. -/
structure EdgeEntry where
  reverse : Option (Nat × Dir)
  src : Option Nat
  dest : Option Nat
  dist : Int
deriving DecidableEq

structure NodeEntry where
  idx : Int
  owner : Int
  name : Option Text
  type : NodeType
  num : Int
  reverse : Option Nat
  edge : Dir → EdgeEntry

abbrev Table := Nat → NodeEntry

def EdgeEntry.zero : EdgeEntry := ⟨none, none, none, 0⟩

/-- After `memset` every number is zero and every pointer null. -/
def NodeEntry.zero : NodeEntry := ⟨0, 0, none, .none, 0, none, fun _ => .zero⟩

def EdgeField.run (e : EdgeEntry) : EdgeField → EdgeEntry
  | reverse i d => { e with reverse := some (i, d) }
  | src i => { e with src := some i }
  | dest i => { e with dest := some i }
  | dist n => { e with dist := wrap32 n }

def Field.run (n : NodeEntry) : Field → NodeEntry
  | idx k => { n with idx := wrap32 k }
  | owner k => { n with owner := wrap32 k }
  | name text => { n with name := some text }
  | type t => { n with type := t }
  | num k => { n with num := wrap32 k }
  | reverse i => { n with reverse := some i }
  | edge d f => { n with edge := update n.edge d (f.run (n.edge d)) }

def Stmt.run (t : Table) (s : Stmt) : Table := update t s.i (s.field.run (t s.i))

def runCode (code : List Stmt) : Table := code.foldl Stmt.run fun _ => .zero

section Graph

variable (d : Description)

/-- The edges that lead back, as the source looks for them. -/
def reverseFields (back home : Nat) : List EdgeField :=
  (waysTo d.nodes back home).map fun w => .reverse back w.dir

/-- `none` where a node or a distance is missing, for which there is no code. -/
def edgeFields (i : Nat) (w : Way) : Option (List EdgeField) :=
  match target d.nodes i w with
  | none => some []
  | some j => do
    let home ← reverseOf d.nodes i
    let back ← reverseOf d.nodes j
    let e ← d.data i w
    let dist ← e.dist
    return reverseFields d back home ++ [.src i, .dest j, .dist dist]

def wayFields (i : Nat) (w : Way) : Option (List Field) :=
  (edgeFields d i w).map fun fields => fields.map (.edge w.dir)

def plainFields (i : Nat) (nd : Node) (kind : Kind) (reverse : Nat) : List Field :=
  [.idx i, .owner (-1), .name (nameText nd.name), .type kind.nodeType] ++
    nd.num.toList.map .num ++ [.reverse reverse]

def nodeFields (i : Nat) (nd : Node) : Option (List Field) := do
  let kind ← nd.kind
  let reverse ← nd.reverse
  let edges ← ways.mapM (wayFields d i)
  return plainFields i nd kind reverse ++ edges.flatten

def nodeCode (i : Nat) (nd : Node) : Option (List Stmt) :=
  (nodeFields d i nd).map fun fields => fields.map (Stmt.mk i)

def Description.code : Option (List Stmt) :=
  (d.nodes.zipIdx.mapM fun nd => nodeCode d nd.2 nd.1).map List.flatten

end Graph

/-- A file with errors, or one that aborts the parser, lets the generator exit. -/
def parseFile (lines : List Text) : Option Description :=
  let tr := track (lines.map removeJunk)
  if tr.reports = [] then tr.value else none

/-- `tracks[tr.function] = tr` -/
def addTrack (tracks : List Description) (d : Description) : List Description :=
  if tracks.any fun d' => d'.function = d.function then
    tracks.map fun d' => if d'.function = d.function then d else d'
  else tracks ++ [d]

/-- `TRACK_MAX` -/
def maxIdx (tracks : List Description) : Nat := (tracks.map fun d => d.nodes.length).foldr max 0

structure Output where
  trackMax : Nat
  functions : List (Text × List Stmt)

def functionCode (d : Description) : Option (Text × List Stmt) :=
  d.code.map fun code => (nameText d.function, code)

/-- Without a file the generator prints how to use it, and writes nothing. -/
def generate (files : List (List Text)) : Option Output :=
  if files = [] then none
  else do
    let ds ← files.mapM parseFile
    let tracks := ds.foldl addTrack []
    let functions ← tracks.mapM functionCode
    return ⟨maxIdx tracks, functions⟩

/-- The words that the language has a use for, and those for which the files themselves have one. -/
def taken : List Text :=
  ["asm", "auto", "break", "case", "char", "const", "continue", "default", "do", "double", "else",
    "enum", "extern", "float", "for", "goto", "if", "inline", "int", "long", "register",
    "restrict", "return", "short", "signed", "sizeof", "static", "struct", "switch", "typedef",
    "typeof", "union", "unsigned", "void", "volatile", "while", "linux", "unix", "memset",
    "track_node", "track_edge", "node_type", "NODE_NONE", "NODE_SENSOR", "NODE_BRANCH",
    "NODE_MERGE", "NODE_ENTER", "NODE_EXIT", "DIR_AHEAD", "DIR_STRAIGHT", "DIR_CURVED",
    "TRACK_MAX"].map String.toList

/-- A name that C has for a function. One with an underscore in front is the compiler's. -/
def isName : Text → Bool
  | [] => false
  | c :: rest => c.isAlpha && rest.all (fun c => c.isAlphanum || c = '_') && (c :: rest) ∉ taken

/-- A text that stands for itself between quotes, without a quote, a backslash or a trigraph. -/
def isPlain (text : Text) : Bool := text.all fun c => 32 ≤ c.toNat ∧ c.toNat ∉ [34, 63, 92]

def Field.isPlain : Field → Bool
  | name text => TrackData.isPlain text
  | _ => true

/-- What the written functions do once they are compiled: each of them sets up a table. The
generator puts names into its text as they are, and not every text is then C. -/
def compile (out : Output) : Option (List (Text × Table)) :=
  if ∀ f ∈ out.functions, isName f.1 ∧ ∀ s ∈ f.2, s.field.isPlain then
    some (out.functions.map fun f => (f.1, runCode f.2))
  else none

/-- The table as the track that the other programs work with. -/
def Table.node (n : Nat) (i : Option Nat) : Option (Fin n) :=
  i.bind fun i => if h : i < n then some ⟨i, h⟩ else none

def Table.track (t : Table) (n : Nat) : Track (Fin n) where
  idx i := (t i).idx
  type i := (t i).type
  num i := (t i).num
  reverse i := (Table.node n (t i).reverse).getD i
  dest i d := Table.node n ((t i).edge d).dest
  dist i d := ((t i).edge d).dist

end TrainKernel.TrackData
