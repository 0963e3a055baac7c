import Mathlib.Logic.Function.Basic
import TrainKernel.TrackData.Lines
import TrainKernel.User.Track

/-!
# Reading a track description

What the parser reads of nodes and edges, before names are looked up. Each fault is reported with
its line, and the parser goes on.
-/

namespace TrainKernel.TrackData

open Function Library.Reports Reported

/-- `NODE_NONE` has no name in a description. -/
inductive Kind where
  | sensor
  | branch
  | merge
  | enter
  | exit
deriving DecidableEq, Repr

inductive Way where
  | ahead
  | straight
  | curved
deriving DecidableEq, Repr

def ways : List Way := [.ahead, .straight, .curved]

inductive Link where
  | reverse
  | way (w : Way)
deriving DecidableEq, Repr

def links : List Link := .reverse :: ways.map .way

def quote (text : Text) : Text := "'".toList ++ text ++ "'".toList

/-- `'%s' % name` -/
def nameText (name : Option Text) : Text := name.getD "None".toList

namespace Kind

def all : List Kind := [sensor, branch, merge, enter, exit]

def text : Kind → Text
  | sensor => "sensor".toList
  | branch => "branch".toList
  | merge => "merge".toList
  | enter => "enter".toList
  | exit => "exit".toList

def ofText (text : Text) : Option Kind := all.find? fun kind => kind.text = text

def numbered : Kind → Bool
  | sensor | branch | merge => true
  | enter | exit => false

/-- What was expected where the number is wrong, or where there is one. -/
def usage : Kind → Text
  | sensor => "expected 'sensor <SENSOR_NUM>'".toList
  | branch => "expected 'branch <SWITCH_NUM>'".toList
  | merge => "expected 'merge <SWITCH_NUM>'".toList
  | enter => "expected 'enter'".toList
  | exit => "expected 'exit'".toList

/-- The ways out of a node. -/
def ways : Kind → List Way
  | sensor | enter | merge => [.ahead]
  | branch => [.straight, .curved]
  | exit => []

def expects (kind : Kind) : Text :=
  kind.text ++ match kind with
  | sensor | enter | merge => " node expects 'ahead' edge".toList
  | branch => " node expects 'straight' and 'curved' edges".toList
  | exit => " node expects NO edges".toList

end Kind

def Way.text : Way → Text
  | ahead => "ahead".toList
  | straight => "straight".toList
  | curved => "curved".toList

def Link.text : Link → Text
  | reverse => "reverse".toList
  | way w => w.text

def Link.ofText (text : Text) : Option Link := links.find? fun link => link.text = text

/-- The names of other nodes come with the lines that they are from. -/
structure NodeDecl where
  name : Option Text
  kind : Option Kind
  num : Option Int
  link : Link → Option (Text × Nat)

def unknownProperty {α : Type} (p : Property) (a : α) : Reported Error α := do
  report ⟨p.y, "unknown property ".toList ++ quote p.key⟩
  return a

/-- The number behind `sensor`, `branch` or `merge`, and what there is behind `enter` or `exit`. -/
def setNum (kind : Kind) (p : Property) (nd : NodeDecl) : Reported Error NodeDecl :=
  if kind.numbered then
    match p.args with
    | [arg] =>
      match int arg with
      | some num => return { nd with num := some num }
      | none => do
        report ⟨p.y, kind.usage⟩
        return nd
    | _ => do
      report ⟨p.y, kind.usage⟩
      return nd
  else do
    reportIf (p.args ≠ []) ⟨p.y, kind.usage⟩
    return nd

def setKind (kind : Kind) (p : Property) (nd : NodeDecl) : Reported Error NodeDecl := do
  reportIf (nd.kind ≠ none) ⟨p.y, "duplicate node type".toList⟩
  setNum kind p { nd with kind := some kind }

def setLink (link : Link) (p : Property) (nd : NodeDecl) : Reported Error NodeDecl := do
  reportIf (nd.link link ≠ none) ⟨p.y, "duplicate ".toList ++ quote link.text⟩
  match p.args with
  | [name] => return { nd with link := update nd.link link (some (name, p.y)) }
  | _ => do
    report ⟨p.y, "expected '".toList ++ link.text ++ " <NODE>'".toList⟩
    return nd

def nodeProperty (nd : NodeDecl) (p : Property) : Reported Error NodeDecl :=
  match Kind.ofText p.key with
  | some kind => setKind kind p nd
  | none =>
    match Link.ofText p.key with
    | some link => setLink link p nd
    | none => unknownProperty p nd

def NodeDecl.ways (nd : NodeDecl) : List Way :=
  TrackData.ways.filter fun w => (nd.link (.way w)).isSome

def checkKind (y : Nat) (nd : NodeDecl) : Reported Error PUnit :=
  match nd.kind with
  | some kind => reportIf (nd.ways ≠ kind.ways) ⟨y, kind.expects⟩
  | none => return ⟨⟩

def node (s : Section) (args : List Text) : Reported Error NodeDecl := do
  reportIf (args.length ≠ 1) ⟨s.y, "expected 'node <NAME>'".toList⟩
  let name := if args.length = 1 then args.head? else none
  let nd ← s.properties.foldlM nodeProperty ⟨name, none, none, fun _ => none⟩
  reportIf (nd.kind = none) ⟨s.endY, "missing node type".toList⟩
  reportIf (nd.link .reverse = none) ⟨s.endY, "missing property 'reverse <NODE>'".toList⟩
  checkKind s.endY nd
  return nd

structure EdgeDecl where
  y : Nat
  node1 : Text
  node2 : Text
  dist : Option Int
deriving DecidableEq

/-- The number in `distance <INTEGER> mm`. -/
def distance (args : List Text) : Option Int :=
  match args with
  | [arg, unit] => if unit = "mm".toList then int arg else none
  | _ => none

def edgeProperty (dist : Option Int) (p : Property) : Reported Error (Option Int) :=
  if p.key = "distance".toList then do
    reportIf (dist ≠ none) ⟨p.y, "duplicate 'distance'".toList⟩
    match distance p.args with
    | some n => return some n
    | none => do
      report ⟨p.y, "expected 'distance <INTEGER> mm'".toList⟩
      return dist
  else unknownProperty p dist

/-- The two names of an edge, which are empty if the line is not as it should be. -/
def edgeNames (args : List Text) : Text × Text :=
  match args with
  | [node1, node2] => (node1, node2)
  | _ => ([], [])

def edge (s : Section) (args : List Text) : Reported Error EdgeDecl := do
  reportIf (args.length ≠ 2) ⟨s.y, "expected 'edge <NODE1> <NODE2>'".toList⟩
  let dist ← s.properties.foldlM edgeProperty none
  reportIf (dist = none) ⟨s.endY, "missing property 'distance <INTEGER> mm'".toList⟩
  return ⟨s.y, (edgeNames args).1, (edgeNames args).2, dist⟩

structure Decls where
  function : Option Text
  nodes : List NodeDecl
  edges : List EdgeDecl

def globalProperty (function : Option Text) (p : Property) : Reported Error (Option Text) :=
  if p.key = "function".toList then do
    reportIf (function ≠ none) ⟨p.y, "duplicate 'function'".toList⟩
    match p.args with
    | [name] => return some name
    | _ => do
      report ⟨p.y, "expected 'function <FUNCTION_NAME>'".toList⟩
      return function
  else unknownProperty p function

def declareNode (s : Section) (args : List Text) (decls : Decls) : Reported Error Decls := do
  let nd ← node s args
  reportIf (nd.name ∈ decls.nodes.map NodeDecl.name)
    ⟨s.endY, "duplicate node ".toList ++ quote (nameText nd.name)⟩
  return { decls with nodes := decls.nodes ++ [nd] }

def declareEdge (s : Section) (args : List Text) (decls : Decls) : Reported Error Decls := do
  let e ← edge s args
  return { decls with edges := decls.edges ++ [e] }

/-- A line with nothing before the colon aborts the parser. -/
def declaration (decls : Decls) (s : Section) : Reported Error Decls :=
  match split s.header.dropLast with
  | [] => abort
  | word :: args =>
    if word = "node".toList then declareNode s args decls
    else if word = "edge".toList then declareEdge s args decls
    else do
      report ⟨s.y, "unknown type ".toList ++ quote word⟩
      return decls

def declarations (lines : List Text) : Reported Error Decls := do
  let globals := (sections 0 lines).1
  let function ← (properties 0 globals).foldlM globalProperty none
  reportIf (function = none)
    ⟨globals.length, "missing property 'function <FUNCTION_NAME>'".toList⟩
  (sections 0 lines).2.foldlM declaration ⟨function, [], []⟩

end TrainKernel.TrackData
