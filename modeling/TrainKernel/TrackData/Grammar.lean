import TrainKernel.TrackData.Declarations

/-!
# What the parser accepts

A section is read without a report exactly if each of its lines states something that is known, and
no two of them say the same thing. This is said here without the order of the lines.
-/

namespace TrainKernel.TrackData

open Function Library.Reports Reported

variable {α β : Type} {l : List α} {a : α} {o : Option α}

theorem concat_eq_toList : l ++ [a] = o.toList ↔ l = [] ∧ o = some a := by
  cases o with
  | none => simp
  | some b => simp [List.append_eq_singleton_iff, eq_comm]

/-- A fold over lines of which each one sets a value that no other one has set. -/
theorem clean_foldlM_once {step : Option β → α → Reported Error (Option β)} {value : α → Option β}
    (hStep : ∀ s a s', (step s a).Clean s' ↔ s = none ∧ ∃ b, value a = some b ∧ s' = some b)
    {b : β} : (l.foldlM step none).Clean (some b) ↔ ∃ a, l = [a] ∧ value a = some b := by
  have hRead (s' : Option β) : (l.foldlM step none).Clean s' ↔
      l.map value = s'.toList.map some := by
    refine clean_foldlM_iff (P := fun l (s' : Option β) => l.map value = s'.toList.map some) ?_ ?_
    · intro s'
      cases s' <;> simp
    · intro l a s''
      simp only [hStep, List.map_append, List.map_singleton]
      constructor
      · intro h
        cases s'' with
        | none => simp at h
        | some b =>
          rw [Option.toList_some, List.map_singleton, List.append_eq_singleton_iff] at h
          rcases h with ⟨hNil, hValue⟩ | ⟨-, hValue⟩
          · exact ⟨none, hNil, rfl, b, List.singleton_inj.mp hValue, rfl⟩
          · cases hValue
      · rintro ⟨s', h, rfl, b, hValue, rfl⟩
        simp [h, hValue]
  rw [hRead]
  constructor
  · intro h
    obtain ⟨a, rfl, ha⟩ := List.map_eq_singleton_iff.mp h
    exact ⟨a, rfl, ha⟩
  · rintro ⟨a, rfl, ha⟩
    simp [ha]

variable {kind : Kind} {link : Link} {p : Property} {key text : Text} {nd nd' : NodeDecl}
variable {s : Section} {args : List Text} {name : Option Text} {ps : List Property}

@[simp] theorem Kind.ofText_eq_some : Kind.ofText key = some kind ↔ key = kind.text := by
  constructor
  · intro h
    have hFound := List.find?_some h
    exact (of_decide_eq_true hFound).symm
  · rintro rfl
    cases kind <;> decide

@[simp] theorem Link.ofText_eq_some : Link.ofText key = some link ↔ key = link.text := by
  constructor
  · intro h
    have hFound := List.find?_some h
    exact (of_decide_eq_true hFound).symm
  · rintro rfl
    rcases link with _ | _ | _ | _ <;> decide

theorem Kind.text_ne (kind : Kind) (link : Link) : kind.text ≠ link.text := by
  rcases link with _ | _ | _ | _ <;> cases kind <;> decide

/-- The type that a line gives to its node, and the number. -/
def Property.kindEntry (p : Property) : Option (Kind × Option Int) :=
  (Kind.ofText p.key).bind fun kind =>
    if kind.numbered then
      match p.args with
      | [arg] => (int arg).map fun num => (kind, some num)
      | _ => none
    else if p.args = [] then some (kind, none) else none

/-- The link that a line gives to its node. -/
def Property.linkEntry (p : Property) : Option (Link × Text × Nat) :=
  (Link.ofText p.key).bind fun link =>
    match p.args with
    | [name] => some (link, name, p.y)
    | _ => none

def Property.linkTo (link : Link) (p : Property) : Option (Text × Nat) :=
  p.linkEntry.bind fun e => if e.1 = link then some e.2 else none

theorem Property.linkEntry_of_kind (h : p.key = kind.text) : p.linkEntry = none := by
  rw [linkEntry, Option.bind_eq_none_iff]
  intro link hLink
  rw [Link.ofText_eq_some] at hLink
  exact (Kind.text_ne kind link (h.symm.trans hLink)).elim

theorem Property.linkEntry_eq_none {e : Kind × Option Int} (h : p.kindEntry = some e) :
    p.linkEntry = none := by
  obtain ⟨kind, hKind, -⟩ := Option.bind_eq_some_iff.mp h
  exact linkEntry_of_kind (Kind.ofText_eq_some.mp hKind)

namespace NodeDecl

def kindEntry (nd : NodeDecl) : Option (Kind × Option Int) := nd.kind.map fun kind => (kind, nd.num)

def withKind (nd : NodeDecl) (e : Kind × Option Int) : NodeDecl :=
  { nd with kind := some e.1, num := e.2.or nd.num }

def withLink (nd : NodeDecl) (e : Link × Text × Nat) : NodeDecl :=
  { nd with link := update nd.link e.1 (some e.2) }

end NodeDecl

theorem clean_setNum (hKind : nd.kind = some kind) (hKey : p.key = kind.text) :
    (setNum kind p nd).Clean nd' ↔ ∃ e, p.kindEntry = some e ∧ nd' = nd.withKind e := by
  have hWith (num : Option Int) : nd.withKind (kind, num) = { nd with num := num.or nd.num } := by
    rw [NodeDecl.withKind, hKind]
  rw [setNum, Property.kindEntry, Kind.ofText_eq_some.mpr hKey, Option.bind_some]
  split_ifs with hNumbered hArgs
  · rcases p.args with _ | ⟨arg, _ | ⟨arg', args⟩⟩
    · simp
    · cases h : int arg with
      | none => simp [h]
      | some num => simp [h, hWith, eq_comm]
    · simp
  · simp only [hArgs, Option.some.injEq, exists_eq_left', hWith]
    simpa using eq_comm
  · simp [hArgs]

theorem clean_nodeProperty : (nodeProperty nd p).Clean nd' ↔
    (nd.kind = none ∧ ∃ e, p.kindEntry = some e ∧ nd' = nd.withKind e) ∨
      ∃ e, p.linkEntry = some e ∧ nd.link e.1 = none ∧ nd' = nd.withLink e := by
  rw [nodeProperty]
  cases hKind : Kind.ofText p.key with
  | some kind =>
    rw [Kind.ofText_eq_some] at hKind
    have hLink : p.linkEntry = none := Property.linkEntry_of_kind hKind
    have hSet : ({ nd with kind := some kind } : NodeDecl).kind = some kind := rfl
    simp only [setKind, clean_reportIf_bind, clean_setNum hSet hKind, hLink]
    simp [NodeDecl.withKind]
  | none =>
    have hEntry : p.kindEntry = none := by rw [Property.kindEntry, hKind, Option.bind_none]
    cases hLink : Link.ofText p.key with
    | some link =>
      simp only [setLink, clean_reportIf_bind, hEntry, Property.linkEntry, hLink, Option.bind_some]
      rcases p.args with _ | ⟨arg, _ | ⟨arg', args⟩⟩
      · simp
      · simp [NodeDecl.withLink, eq_comm]
      · simp
    | none => simp [hEntry, Property.linkEntry, hLink, unknownProperty]

/-- What the lines of a section say of its node, each of them at most once. -/
structure NodeDecl.States (name : Option Text) (ps : List Property) (nd : NodeDecl) : Prop where
  name : nd.name = name
  known : ∀ p ∈ ps, p.kindEntry.isSome ∨ p.linkEntry.isSome
  kind : ps.filterMap Property.kindEntry = nd.kindEntry.toList
  num : nd.kind = none → nd.num = none
  link : ∀ link, ps.filterMap (Property.linkTo link) = (nd.link link).toList

namespace NodeDecl

theorem states_nil : nd.States name [] ↔ ⟨name, none, none, fun _ => none⟩ = nd := by
  constructor
  · rintro ⟨rfl, -, hKind, hNum, hLink⟩
    obtain ⟨name, kind, num, link⟩ := nd
    obtain rfl : kind = none := by simpa [kindEntry] using hKind
    obtain rfl : num = none := hNum rfl
    obtain rfl : link = fun _ => none := funext fun l => by simpa using hLink l
    rfl
  · rintro rfl
    exact ⟨rfl, by simp, rfl, fun _ => rfl, fun _ => rfl⟩

theorem States.withKind {e : Kind × Option Int} (h : nd.States name ps) (hKind : nd.kind = none)
    (he : p.kindEntry = some e) : (nd.withKind e).States name (ps ++ [p]) := by
  have hLink : p.linkEntry = none := Property.linkEntry_eq_none he
  refine ⟨h.name, ?_, ?_, nofun, fun link => ?_⟩
  · rw [List.forall_mem_append]
    exact ⟨h.known, by simp [he]⟩
  · rw [List.filterMap_append, h.kind]
    simp [kindEntry, hKind, he, NodeDecl.withKind, h.num hKind]
  · rw [List.filterMap_append, h.link link]
    simp [Property.linkTo, hLink, NodeDecl.withKind]

theorem States.withLink {e : Link × Text × Nat} (h : nd.States name ps) (hFree : nd.link e.1 = none)
    (he : p.linkEntry = some e) : (nd.withLink e).States name (ps ++ [p]) := by
  have hKind : p.kindEntry = none := by
    by_contra hSome
    obtain ⟨e', he'⟩ := Option.ne_none_iff_exists'.mp hSome
    rw [Property.linkEntry_eq_none he'] at he
    cases he
  refine ⟨h.name, ?_, ?_, h.num, fun link => ?_⟩
  · rw [List.forall_mem_append]
    exact ⟨h.known, by simp [he]⟩
  · rw [List.filterMap_append, h.kind]
    simp [kindEntry, hKind, NodeDecl.withLink]
  · rw [List.filterMap_append, h.link link]
    rcases eq_or_ne e.1 link with rfl | hNe
    · simp [Property.linkTo, he, NodeDecl.withLink, hFree]
    · simp [Property.linkTo, he, NodeDecl.withLink, hNe, update_of_ne hNe.symm]

theorem States.of_withKind {e : Kind × Option Int} (h : nd'.States name (ps ++ [p]))
    (he : p.kindEntry = some e) :
    ∃ nd : NodeDecl, nd.States name ps ∧ nd.kind = none ∧ nd' = nd.withKind e := by
  have hKnown := (List.forall_mem_append.mp h.known).1
  have hKind : ps.filterMap Property.kindEntry = [] ∧ nd'.kindEntry = some e := by
    rw [← concat_eq_toList, ← h.kind]
    simp [he]
  have hLink (link : Link) : ps.filterMap (Property.linkTo link) = (nd'.link link).toList := by
    rw [← h.link link]
    simp [Property.linkTo, Property.linkEntry_eq_none he]
  obtain ⟨name', kind, num, link⟩ := nd'
  cases kind with
  | none => cases hKind.2
  | some kind =>
    obtain rfl : (kind, num) = e := Option.some_inj.mp hKind.2
    exact ⟨⟨name', none, none, link⟩, ⟨h.name, hKnown, hKind.1, fun _ => rfl, hLink⟩, rfl,
      by simp [NodeDecl.withKind]⟩

theorem States.of_withLink {e : Link × Text × Nat} (h : nd'.States name (ps ++ [p]))
    (hKind : p.kindEntry = none) (he : p.linkEntry = some e) :
    ∃ nd : NodeDecl, nd.States name ps ∧ nd.link e.1 = none ∧ nd' = nd.withLink e := by
  have hKnown := (List.forall_mem_append.mp h.known).1
  have hSame : ps.filterMap (Property.linkTo e.1) = [] ∧ nd'.link e.1 = some e.2 := by
    rw [← concat_eq_toList, ← h.link e.1]
    simp [Property.linkTo, he]
  have hOther (link : Link) (hNe : link ≠ e.1) :
      ps.filterMap (Property.linkTo link) = (nd'.link link).toList := by
    rw [← h.link link]
    simp [Property.linkTo, he, hNe.symm]
  refine ⟨{ nd' with link := update nd'.link e.1 none }, ⟨h.name, hKnown, ?_, h.num, ?_⟩,
    update_self _ _ _, ?_⟩
  · have hEntries : ps.filterMap Property.kindEntry = nd'.kindEntry.toList := by
      rw [← h.kind]
      simp [hKind]
    exact hEntries
  · intro link
    rcases eq_or_ne link e.1 with rfl | hNe
    · simpa using hSame.1
    · simpa [update_of_ne hNe] using hOther link hNe
  · simp [NodeDecl.withLink, ← hSame.2]

theorem states_concat : nd'.States name (ps ++ [p]) ↔
    ∃ nd : NodeDecl, nd.States name ps ∧ (nodeProperty nd p).Clean nd' := by
  simp only [clean_nodeProperty]
  constructor
  · intro h
    cases hKind : p.kindEntry with
    | some e =>
      obtain ⟨nd, hStates, hFree, hSet⟩ := h.of_withKind hKind
      exact ⟨nd, hStates, .inl ⟨hFree, e, rfl, hSet⟩⟩
    | none =>
      have hLast := h.known p (by simp)
      rw [hKind, Option.isSome_none, Bool.false_eq_true, false_or,
        Option.isSome_iff_exists] at hLast
      obtain ⟨e, he⟩ := hLast
      obtain ⟨nd, hStates, hFree, hSet⟩ := h.of_withLink hKind he
      exact ⟨nd, hStates, .inr ⟨e, he, hFree, hSet⟩⟩
  · rintro ⟨nd, h, ⟨hKind, e, he, rfl⟩ | ⟨e, he, hFree, rfl⟩⟩
    · exact h.withKind hKind he
    · exact h.withLink hFree he

end NodeDecl

theorem clean_nodeProperties : (ps.foldlM nodeProperty ⟨name, none, none, fun _ => none⟩).Clean nd ↔
    nd.States name ps :=
  clean_foldlM_iff (P := fun ps nd => NodeDecl.States name ps nd) (fun _ => NodeDecl.states_nil)
    fun _ _ _ => NodeDecl.states_concat

/-- The section of a node: a type, the reverse, and the ways that such a node has. -/
structure Section.DeclaresNode (s : Section) (args : List Text) (nd : NodeDecl) : Prop where
  states : ∃ name, args = [name] ∧ nd.States (some name) s.properties
  ways : ∃ kind, nd.kind = some kind ∧ nd.ways = kind.ways
  reverse : nd.link .reverse ≠ none

theorem clean_node : (node s args).Clean nd ↔ s.DeclaresNode args nd := by
  rw [node]
  simp only [clean_bind, clean_reportIf, exists_const, clean_nodeProperties, clean_pure, not_not]
  constructor
  · rintro ⟨hArgs, nd', hStates, hKind, hReverse, u, hCheck, rfl⟩
    obtain ⟨name, rfl⟩ := List.length_eq_one_iff.mp hArgs
    obtain ⟨kind, hKind⟩ := Option.ne_none_iff_exists'.mp hKind
    refine ⟨⟨name, rfl, hStates⟩, ⟨kind, hKind, ?_⟩, hReverse⟩
    rw [checkKind, hKind, clean_reportIf, not_not] at hCheck
    exact hCheck
  · rintro ⟨⟨name, rfl, hStates⟩, ⟨kind, hKind, hWays⟩, hReverse⟩
    refine ⟨rfl, nd, hStates, by simp [hKind], hReverse, ⟨⟩, ?_, rfl⟩
    rw [checkKind, hKind, clean_reportIf, not_not]
    exact hWays

/-! ## Edges -/

variable {e : EdgeDecl} {d d' : Option Int}

/-- The distance that a line gives to its edge. -/
def Property.dist (p : Property) : Option Int :=
  if p.key = "distance".toList then distance p.args else none

theorem clean_edgeProperty : (edgeProperty d p).Clean d' ↔
    d = none ∧ ∃ n, p.dist = some n ∧ d' = some n := by
  rw [edgeProperty, Property.dist]
  split_ifs with hKey
  · cases h : distance p.args <;> simp [eq_comm]
  · simp [unknownProperty]

theorem clean_edgeProperties {n : Int} : (ps.foldlM edgeProperty none).Clean (some n) ↔
    ∃ p, ps = [p] ∧ p.dist = some n :=
  clean_foldlM_once fun _ p _ => clean_edgeProperty (p := p)

structure Section.DeclaresEdge (s : Section) (args : List Text) (e : EdgeDecl) : Prop where
  y : e.y = s.y
  args : args = [e.node1, e.node2]
  dist : ∃ p n, s.properties = [p] ∧ p.dist = some n ∧ e.dist = some n

theorem clean_edge : (edge s args).Clean e ↔ s.DeclaresEdge args e := by
  rw [edge]
  simp only [clean_bind, clean_reportIf, exists_const, clean_pure, not_not]
  constructor
  · rintro ⟨hArgs, dist, hDist, hSome, rfl⟩
    obtain ⟨n, rfl⟩ := Option.ne_none_iff_exists'.mp hSome
    obtain ⟨node1, node2, rfl⟩ := List.length_eq_two.mp hArgs
    obtain ⟨p, hOne, hValue⟩ := clean_edgeProperties.mp hDist
    exact ⟨rfl, rfl, p, n, hOne, hValue, rfl⟩
  · rintro ⟨hY, rfl, p, n, hOne, hValue, hDist⟩
    refine ⟨rfl, some n, clean_edgeProperties.mpr ⟨p, hOne, hValue⟩, by simp, ?_⟩
    rw [← hY, ← hDist]
    rfl

variable {decls decls' : Decls} {lines : List Text} {secs : List Section} {f f' : Option Text}

/-- The name that a line gives to the generated function. -/
def Property.function (p : Property) : Option Text :=
  if p.key = "function".toList then
    match p.args with
    | [name] => some name
    | _ => none
  else none

theorem clean_globalProperty : (globalProperty f p).Clean f' ↔
    f = none ∧ ∃ name, p.function = some name ∧ f' = some name := by
  rw [globalProperty, Property.function]
  split_ifs with hKey
  · rcases p.args with _ | ⟨arg, _ | ⟨arg', args⟩⟩ <;> simp [eq_comm]
  · simp [unknownProperty]

theorem clean_globalProperties : (ps.foldlM globalProperty none).Clean (some text) ↔
    ∃ p, ps = [p] ∧ p.function = some text :=
  clean_foldlM_once fun _ p _ => clean_globalProperty (p := p)

namespace Section

def word (s : Section) : Option Text := (split s.header.dropLast).head?

def rest (s : Section) : List Text := (split s.header.dropLast).tail

/-- The section of a node, or that of an edge. -/
def IsNode (s : Section) : Prop := s.word = some "node".toList

def IsEdge (s : Section) : Prop := s.word = some "edge".toList

instance : DecidablePred IsNode := fun _ => inferInstanceAs (Decidable (_ = _))

instance : DecidablePred IsEdge := fun _ => inferInstanceAs (Decidable (_ = _))

theorem IsNode.not_isEdge (h : s.IsNode) : ¬s.IsEdge := by
  intro hEdge
  cases h.symm.trans hEdge

end Section

def Decls.names (decls : Decls) : List (Option Text) := decls.nodes.map NodeDecl.name

theorem clean_declaration : (declaration decls s).Clean decls' ↔
    (s.IsNode ∧ ∃ nd, s.DeclaresNode s.rest nd ∧ nd.name ∉ decls.names ∧
      decls' = { decls with nodes := decls.nodes ++ [nd] }) ∨
    s.IsEdge ∧ ∃ e, s.DeclaresEdge s.rest e ∧
      decls' = { decls with edges := decls.edges ++ [e] } := by
  rw [declaration, Section.IsNode, Section.IsEdge, Section.word, Section.rest]
  cases split s.header.dropLast with
  | nil => simp
  | cons word args =>
    simp only [List.head?_cons, List.tail_cons, Option.some_inj]
    split_ifs with hNode hEdge
    · subst hNode
      simp only [declareNode, clean_bind, clean_node, clean_reportIf, exists_const, clean_pure]
      simp [Decls.names, eq_comm]
    · subst hEdge
      simp only [declareEdge, clean_bind, clean_edge, clean_pure]
      simp [eq_comm]
    · simp only [hNode, hEdge, clean_bind, not_clean_report, false_and, exists_const, or_self]

/-- Every section declares a node or an edge, and no two nodes have the same name. -/
structure Decls.StatedBy (f : Option Text) (secs : List Section) (decls : Decls) : Prop where
  function : decls.function = f
  known : ∀ s ∈ secs, s.IsNode ∨ s.IsEdge
  nodes : List.Forall₂ (fun s nd => s.DeclaresNode s.rest nd)
    (secs.filter fun s => s.IsNode) decls.nodes
  edges : List.Forall₂ (fun s e => s.DeclaresEdge s.rest e)
    (secs.filter fun s => s.IsEdge) decls.edges
  names : decls.names.Nodup

theorem forall₂_concat {R : α → β → Prop} {bs : List β} : List.Forall₂ R (l ++ [a]) bs ↔
    ∃ bs' b, bs = bs' ++ [b] ∧ List.Forall₂ R l bs' ∧ R a b := by
  rw [← List.forall₂_reverse_iff, List.reverse_append, List.reverse_singleton,
    List.singleton_append, List.forall₂_cons_left_iff]
  constructor
  · rintro ⟨b, u, hLast, hRest, hSplit⟩
    refine ⟨u.reverse, b, ?_, ?_, hLast⟩
    · rw [← List.reverse_cons, ← hSplit, List.reverse_reverse]
    · rwa [← List.forall₂_reverse_iff, List.reverse_reverse]
  · rintro ⟨bs', b, rfl, hRest, hLast⟩
    exact ⟨b, bs'.reverse, hLast, List.forall₂_reverse_iff.mpr hRest, by simp⟩

namespace Decls

theorem statedBy_nil : decls.StatedBy f [] ↔ ⟨f, [], []⟩ = decls := by
  constructor
  · rintro ⟨rfl, -, hNodes, hEdges, -⟩
    obtain ⟨f, nodes, edges⟩ := decls
    obtain rfl : nodes = [] := List.forall₂_nil_left_iff.mp hNodes
    obtain rfl : edges = [] := List.forall₂_nil_left_iff.mp hEdges
    rfl
  · rintro rfl
    exact ⟨rfl, by simp, .nil, .nil, List.nodup_nil⟩

theorem StatedBy.node {nd : NodeDecl} (h : decls.StatedBy f secs) (hNode : s.IsNode)
    (hDeclares : s.DeclaresNode s.rest nd) (hNew : nd.name ∉ decls.names) :
    StatedBy f (secs ++ [s]) { decls with nodes := decls.nodes ++ [nd] } where
  function := h.function
  known := List.forall_mem_append.mpr ⟨h.known, by simp [hNode]⟩
  nodes := by
    have hFilter : (secs ++ [s]).filter (fun s => s.IsNode) =
        secs.filter (fun s => s.IsNode) ++ [s] := by simp [hNode]
    rw [hFilter]
    exact forall₂_concat.mpr ⟨_, _, rfl, h.nodes, hDeclares⟩
  edges := by simpa [hNode.not_isEdge] using h.edges
  names := by
    rw [Decls.names, List.map_append, List.map_singleton, List.nodup_append]
    refine ⟨h.names, by simp, fun a ha b hb => ?_⟩
    rw [List.mem_singleton.mp hb]
    rintro rfl
    exact hNew ha

theorem StatedBy.edge {e : EdgeDecl} (h : decls.StatedBy f secs) (hEdge : s.IsEdge)
    (hDeclares : s.DeclaresEdge s.rest e) :
    StatedBy f (secs ++ [s]) { decls with edges := decls.edges ++ [e] } where
  function := h.function
  known := List.forall_mem_append.mpr ⟨h.known, by simp [hEdge]⟩
  nodes := by
    have hNode : ¬s.IsNode := fun hNode => hNode.not_isEdge hEdge
    simpa [hNode] using h.nodes
  edges := by
    have hFilter : (secs ++ [s]).filter (fun s => s.IsEdge) =
        secs.filter (fun s => s.IsEdge) ++ [s] := by simp [hEdge]
    rw [hFilter]
    exact forall₂_concat.mpr ⟨_, _, rfl, h.edges, hDeclares⟩
  names := h.names

theorem statedBy_concat : decls'.StatedBy f (secs ++ [s]) ↔
    ∃ decls : Decls, decls.StatedBy f secs ∧ (declaration decls s).Clean decls' := by
  simp only [clean_declaration]
  constructor
  · rintro ⟨rfl, hKnown, hNodes, hEdges, hNames⟩
    rw [List.forall_mem_append, List.forall_mem_singleton] at hKnown
    obtain ⟨hKnown, hNode | hEdge⟩ := hKnown
    · have hFilter : (secs ++ [s]).filter (fun s => s.IsNode) =
          secs.filter (fun s => s.IsNode) ++ [s] := by simp [hNode]
      rw [hFilter, forall₂_concat] at hNodes
      obtain ⟨nodes, nd, hSplit, hNodes, hDeclares⟩ := hNodes
      rw [Decls.names, hSplit, List.map_append, List.map_singleton, List.nodup_append] at hNames
      refine ⟨⟨decls'.function, nodes, decls'.edges⟩, ⟨rfl, hKnown, hNodes, ?_, hNames.1⟩,
        .inl ⟨hNode, nd, hDeclares, ?_, by rw [← hSplit]⟩⟩
      · simpa [hNode.not_isEdge] using hEdges
      · exact fun hMem => hNames.2.2 _ hMem _ (List.mem_singleton_self _) rfl
    · have hNode : ¬s.IsNode := fun hNode => hNode.not_isEdge hEdge
      have hFilter : (secs ++ [s]).filter (fun s => s.IsEdge) =
          secs.filter (fun s => s.IsEdge) ++ [s] := by simp [hEdge]
      rw [hFilter, forall₂_concat] at hEdges
      obtain ⟨edges, e, hSplit, hEdges, hDeclares⟩ := hEdges
      refine ⟨⟨decls'.function, decls'.nodes, edges⟩, ⟨rfl, hKnown, ?_, hEdges, hNames⟩,
        .inr ⟨hEdge, e, hDeclares, by rw [← hSplit]⟩⟩
      simpa [hNode] using hNodes
  · rintro ⟨decls, h, ⟨hNode, nd, hDeclares, hNew, rfl⟩ | ⟨hEdge, e, hDeclares, rfl⟩⟩
    · exact h.node hNode hDeclares hNew
    · exact h.edge hEdge hDeclares

end Decls

/-- The parser has nothing to report of a description exactly if it names its function, and each
section declares a node or an edge. -/
theorem clean_declarations : (declarations lines).Clean decls ↔
    (∃ p name, properties 0 (sections 0 lines).1 = [p] ∧ p.function = some name ∧
      decls.StatedBy (some name) (sections 0 lines).2) := by
  have hSections (f : Option Text) :
      ((sections 0 lines).2.foldlM declaration ⟨f, [], []⟩).Clean decls ↔
        decls.StatedBy f (sections 0 lines).2 :=
    clean_foldlM_iff (P := fun secs decls => Decls.StatedBy f secs decls)
      (fun _ => Decls.statedBy_nil) fun _ _ _ => Decls.statedBy_concat
  rw [declarations]
  simp only [clean_bind, clean_reportIf, exists_const, hSections]
  constructor
  · rintro ⟨f, hGlobals, hSome, hStated⟩
    obtain ⟨name, rfl⟩ := Option.ne_none_iff_exists'.mp hSome
    obtain ⟨p, hOne, hName⟩ := clean_globalProperties.mp hGlobals
    exact ⟨p, name, hOne, hName, hStated⟩
  · rintro ⟨p, name, hOne, hName, hStated⟩
    exact ⟨some name, clean_globalProperties.mpr ⟨p, hOne, hName⟩, by simp, hStated⟩

end TrainKernel.TrackData
