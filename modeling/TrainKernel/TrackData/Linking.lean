import TrainKernel.TrackData.Declarations

/-!
# Linking a track description

Names become nodes, and each edge is found among the ways of the nodes it connects: from its first
node to its second, and from the reverse of the second to the reverse of the first.
-/

namespace TrainKernel.TrackData

open Function Library.Reports Reported

/-- A node is known by its index. -/
structure Node where
  name : Option Text
  kind : Option Kind
  num : Option Int
  reverse : Option Nat
  way : Way → Option Nat

/-- `name2node`, where a later node takes the name from an earlier one. -/
def nameToNode (nodes : List NodeDecl) : Option Text → Option Nat :=
  nodes.zipIdx.foldl (fun dict nd => update dict nd.1.name (some nd.2)) fun _ => none

def noNode (name : Text) : Text := "no node with name ".toList ++ quote name

def resolveLink (dict : Option Text → Option Nat) (link : Option (Text × Nat)) :
    Reported Error (Option Nat) :=
  match link with
  | none => return none
  | some (name, y) => do
    reportIf (dict name = none) ⟨y, noNode name⟩
    return dict name

def resolve (dict : Option Text → Option Nat) (nd : NodeDecl) : Reported Error Node := do
  let reverse ← resolveLink dict (nd.link .reverse)
  let ahead ← resolveLink dict (nd.link (.way .ahead))
  let straight ← resolveLink dict (nd.link (.way .straight))
  let curved ← resolveLink dict (nd.link (.way .curved))
  return ⟨nd.name, nd.kind, nd.num, reverse, fun
    | .ahead => ahead
    | .straight => straight
    | .curved => curved⟩

section Graph

variable (nodes : List Node)

def nodeName (i : Nat) : Text := nameText (nodes[i]?.bind Node.name)

def reverseOf (i : Nat) : Option Nat := nodes[i]?.bind Node.reverse

def target (i : Nat) (w : Way) : Option Nat := nodes[i]?.bind fun nd => nd.way w

/-- The ways from one node to another. -/
def waysTo (i j : Nat) : List Way := ways.filter fun w => target nodes i w = some j

end Graph

/-- `ahead_edge`, `straight_edge` and `curved_edge` of each node. -/
abbrev EdgeData := Nat → Way → Option EdgeDecl

def EdgeData.set (data : EdgeData) (i : Nat) (w : Way) (e : EdgeDecl) : EdgeData :=
  update data i (update (data i) w (some e))

def fromTo (nodes : List Node) (i j : Nat) : Text :=
  "from ".toList ++ quote (nodeName nodes i) ++ " to ".toList ++ quote (nodeName nodes j)

def setEdge (nodes : List Node) (i j : Nat) (e : EdgeDecl) (data : EdgeData) (w : Way) :
    Reported Error EdgeData := do
  reportIf (data i w ≠ none) ⟨e.y, "duplicate edge ".toList ++ fromTo nodes i j⟩
  return data.set i w e

def addEdge (nodes : List Node) (i j : Nat) (e : EdgeDecl) (data : EdgeData) :
    Reported Error EdgeData := do
  let count := (waysTo nodes i j).length
  let data ← (waysTo nodes i j).foldlM (setEdge nodes i j e) data
  reportIf (count = 0)
    ⟨e.y, "there is no edge ".toList ++ fromTo nodes i j ++ " in the node data".toList⟩
  reportIf (count > 1)
    ⟨e.y, "too many edges ".toList ++ fromTo nodes i j ++ " in the node data".toList⟩
  return data

/-- Both ends of an edge are nodes: it is added, and in the other direction if there is one. -/
def addBoth (nodes : List Node) (i j : Nat) (e : EdgeDecl) (data : EdgeData) :
    Reported Error EdgeData := do
  let data ← addEdge nodes i j e data
  match reverseOf nodes i, reverseOf nodes j with
  | some i', some j' => addEdge nodes j' i' e data
  | _, _ => return data

def linkEdge (dict : Option Text → Option Nat) (nodes : List Node) (data : EdgeData)
    (e : EdgeDecl) : Reported Error EdgeData := do
  reportIf (dict e.node1 = none) ⟨e.y, noNode e.node1⟩
  reportIf (dict e.node2 = none) ⟨e.y, noNode e.node2⟩
  match dict e.node1, dict e.node2 with
  | some i, some j => addBoth nodes i j e data
  | _, _ => return data

/-- Every way needs an edge. -/
def checkEdge (y : Nat) (nodes : List Node) (data : EdgeData) (i : Nat) (w : Way) :
    Reported Error PUnit :=
  match target nodes i w with
  | some j => reportIf (data i w = none) ⟨y, "missing edge ".toList ++ fromTo nodes i j⟩
  | none => return ⟨⟩

def checkEdges (y : Nat) (nodes : List Node) (data : EdgeData) : Reported Error PUnit :=
  (List.range nodes.length).forM fun i => ways.forM fun w => checkEdge y nodes data i w

structure Description where
  function : Option Text
  nodes : List Node
  data : EdgeData

def track (lines : List Text) : Reported Error Description := do
  let decls ← declarations lines
  let dict := nameToNode decls.nodes
  let nodes ← decls.nodes.mapM (resolve dict)
  let data ← decls.edges.foldlM (linkEdge dict nodes) fun _ _ => none
  checkEdges lines.length nodes data
  return ⟨decls.function, nodes, data⟩

/-- The parser exits with success only on a description without errors. -/
abbrev Accepts (lines : List Text) (d : Description) : Prop :=
  (track (lines.map removeJunk)).Clean d

end TrainKernel.TrackData
