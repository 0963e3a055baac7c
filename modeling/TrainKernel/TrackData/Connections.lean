import TrainKernel.TrackData.Grammar
import TrainKernel.TrackData.Linking

/-!
# What the linker accepts

An edge of the description stands for two connections, one for each direction. The linker has
nothing to report exactly if the connections are those of the nodes, each of them once.
-/

namespace TrainKernel.TrackData

open Function Library.Reports Reported

variable {nodes : List Node} {data data' : EdgeData} {i j : Nat} {w w' : Way} {e e' : EdgeDecl}
variable {dict : Option Text → Option Nat}

theorem mem_ways (w : Way) : w ∈ ways := by cases w <;> decide

theorem EdgeData.set_apply (i' : Nat) (w' : Way) :
    data.set i w e i' w' = if i' = i ∧ w' = w then some e else data i' w' := by
  rw [set, update_apply]
  split_ifs with hi hBoth hBoth
  · rw [hBoth.2, update_self]
  · rw [update_of_ne fun hw => hBoth ⟨hi, hw⟩, hi]
  · exact (hi hBoth.1).elim
  · rfl

theorem mem_waysTo : w ∈ waysTo nodes i j ↔ target nodes i w = some j := by
  simp [waysTo, mem_ways]

theorem target_of_waysTo (h : waysTo nodes i j = [w]) : target nodes i w = some j :=
  mem_waysTo.mp (h ▸ List.mem_singleton_self w)

structure Connection where
  src : Nat
  dest : Nat
  edge : EdgeDecl

def connect (nodes : List Node) (data : EdgeData) (c : Connection) : Reported Error EdgeData :=
  addEdge nodes c.src c.dest c.edge data

/-- The connections of an edge: the second one leads back along the other side. -/
def connections (dict : Option Text → Option Nat) (nodes : List Node) (e : EdgeDecl) :
    List Connection :=
  match dict e.node1, dict e.node2 with
  | some i, some j => ⟨i, j, e⟩ ::
    match reverseOf nodes i, reverseOf nodes j with
    | some i', some j' => [⟨j', i', e⟩]
    | _, _ => []
  | _, _ => []

variable {c c' : Connection} {cs : List Connection} {edges : List EdgeDecl}

theorem clean_connect : (connect nodes data c).Clean data' ↔
    ∃ w, waysTo nodes c.src c.dest = [w] ∧ data c.src w = none ∧
      data' = data.set c.src w c.edge := by
  rw [connect, addEdge]
  simp only [clean_bind, clean_reportIf, exists_const, clean_pure, not_lt]
  constructor
  · rintro ⟨data₁, hFold, hSome, hOne, rfl⟩
    obtain ⟨w, hWays⟩ := List.length_eq_one_iff.mp (show (waysTo nodes c.src c.dest).length = 1 by
      omega)
    rw [hWays, clean_foldlM_cons] at hFold
    simp only [setEdge, clean_bind, clean_reportIf, exists_const, clean_pure, not_not,
      clean_foldlM_nil] at hFold
    obtain ⟨data₂, ⟨hFree, rfl⟩, rfl⟩ := hFold
    exact ⟨w, hWays, hFree, rfl⟩
  · rintro ⟨w, hWays, hFree, rfl⟩
    refine ⟨_, ?_, by simp [hWays], by simp [hWays], rfl⟩
    rw [hWays, clean_foldlM_cons]
    simp [setEdge, hFree]

theorem clean_linkEdge : (linkEdge dict nodes data e).Clean data' ↔
    ((dict e.node1).isSome ∧ (dict e.node2).isSome) ∧
      ((connections dict nodes e).foldlM (connect nodes) data).Clean data' := by
  rw [linkEdge, connections]
  simp only [clean_bind, clean_reportIf, exists_const]
  cases dict e.node1 with
  | none => simp
  | some i =>
    cases dict e.node2 with
    | none => simp
    | some j =>
      simp only [reduceCtorEq, not_false_eq_true, true_and, Option.isSome_some, addBoth, clean_bind,
        clean_foldlM_cons]
      cases reverseOf nodes i with
      | none => rfl
      | some i' =>
        cases reverseOf nodes j with
        | none => rfl
        | some j' => simp only [clean_foldlM_cons, clean_foldlM_nil, exists_eq_right]; rfl

theorem clean_linkEdges : (edges.foldlM (linkEdge dict nodes) data).Clean data' ↔
    (∀ e ∈ edges, (dict e.node1).isSome ∧ (dict e.node2).isSome) ∧
      ((edges.flatMap (connections dict nodes)).foldlM (connect nodes) data).Clean data' := by
  induction edges generalizing data with
  | nil => simp
  | cons e edges ih =>
    rw [clean_foldlM_cons, List.flatMap_cons, clean_foldlM_append, List.forall_mem_cons]
    simp only [clean_linkEdge, ih]
    constructor
    · rintro ⟨data₁, ⟨hKnown, hFirst⟩, hRest, hLater⟩
      exact ⟨⟨hKnown, hRest⟩, data₁, hFirst, hLater⟩
    · rintro ⟨⟨hKnown, hRest⟩, data₁, hFirst, hLater⟩
      exact ⟨data₁, ⟨hKnown, hFirst⟩, hRest, hLater⟩

/-- Each connection has a way of its own, which holds its edge. -/
structure Connected (nodes : List Node) (cs : List Connection) (data : EdgeData) : Prop where
  single : ∀ c ∈ cs, ∃ w, waysTo nodes c.src c.dest = [w]
  once : (cs.map fun c => (c.src, c.dest)).Nodup
  data : ∀ i w e, data i w = some e ↔
    ∃ c ∈ cs, c.src = i ∧ c.edge = e ∧ waysTo nodes i c.dest = [w]

theorem connected_nil : Connected nodes [] data ↔ (fun _ _ => none) = data := by
  constructor
  · intro h
    funext i w
    cases hData : data i w with
    | none => rfl
    | some e =>
      obtain ⟨c, hc, -⟩ := (h.data i w e).mp hData
      cases hc
  · rintro rfl
    exact ⟨by simp, by simp, by simp⟩

theorem Connected.connect (h : Connected nodes cs data)
    (hWays : waysTo nodes c.src c.dest = [w]) (hFree : data c.src w = none) :
    Connected nodes (cs ++ [c]) (data.set c.src w c.edge) where
  single := List.forall_mem_append.mpr ⟨h.single, by simpa using ⟨w, hWays⟩⟩
  once := by
    rw [List.map_append, List.map_singleton, List.nodup_append]
    refine ⟨h.once, by simp, fun pair hPair pair' hPair' => ?_⟩
    rw [List.mem_singleton.mp hPair']
    rintro rfl
    obtain ⟨c', hc', hSame⟩ := List.mem_map.mp hPair
    rw [Prod.mk.injEq] at hSame
    have hTaken := (h.data c.src w c'.edge).mpr ⟨c', hc', hSame.1, rfl, hSame.2 ▸ hWays⟩
    cases hFree.symm.trans hTaken
  data i w' e := by
    rw [EdgeData.set_apply]
    simp only [List.mem_append, List.mem_singleton, or_and_right, exists_or, exists_eq_left]
    split_ifs with hSlot
    · obtain ⟨rfl, rfl⟩ := hSlot
      have hNone :
          ¬∃ c' ∈ cs, c'.src = c.src ∧ c'.edge = e ∧ waysTo nodes c.src c'.dest = [w'] := by
        rw [← h.data, hFree]
        simp
      simp [hNone, hWays]
    · rw [h.data, iff_self_or]
      rintro ⟨rfl, -, hSame⟩
      exact (hSlot ⟨rfl, (List.singleton_inj.mp (hWays.symm.trans hSame)).symm⟩).elim

theorem Connected.disconnect (h : Connected nodes (cs ++ [c]) data')
    (hWays : waysTo nodes c.src c.dest = [w]) :
    ∃ data, Connected nodes cs data ∧ data c.src w = none ∧
      data' = data.set c.src w c.edge := by
  obtain ⟨hSingle, hOnce, hData⟩ := h
  rw [List.map_append, List.map_singleton, List.nodup_append] at hOnce
  have hSet : data' c.src w = some c.edge :=
    (hData _ _ _).mpr ⟨c, by simp, rfl, rfl, hWays⟩
  let data : EdgeData := fun i v => if i = c.src ∧ v = w then none else data' i v
  refine ⟨data, ⟨(List.forall_mem_append.mp hSingle).1, hOnce.1, fun i v e => ?_⟩, by simp [data],
    ?_⟩
  · change (if i = c.src ∧ v = w then none else data' i v) = some e ↔ _
    split_ifs with hSlot
    · obtain ⟨rfl, rfl⟩ := hSlot
      simp only [false_iff]
      rintro ⟨c', hc', hSrc, -, hSame⟩
      have hDest : c'.dest = c.dest :=
        Option.some_inj.mp ((target_of_waysTo hSame).symm.trans (target_of_waysTo hWays))
      exact hOnce.2.2 (c'.src, c'.dest) (List.mem_map_of_mem hc') _ (List.mem_singleton_self _)
        (by rw [hSrc, hDest])
    · rw [hData]
      simp only [List.mem_append, List.mem_singleton, or_and_right, exists_or, exists_eq_left]
      rw [or_iff_left]
      rintro ⟨rfl, -, hSame⟩
      exact hSlot ⟨rfl, (List.singleton_inj.mp (hWays.symm.trans hSame)).symm⟩
  · funext i v
    rw [EdgeData.set_apply]
    split_ifs with hSlot
    · rw [hSlot.1, hSlot.2, hSet]
    · exact (if_neg hSlot).symm

theorem clean_connects : (cs.foldlM (connect nodes) fun _ _ => none).Clean data ↔
    Connected nodes cs data := by
  apply clean_foldlM_iff (P := fun cs data => Connected nodes cs data) fun _ => connected_nil
  intro cs c data'
  simp only [clean_connect]
  constructor
  · intro h
    obtain ⟨w, hWays⟩ := h.single c (by simp)
    obtain ⟨data, hConnected, hFree, hSet⟩ := h.disconnect hWays
    exact ⟨data, hConnected, w, hWays, hFree, hSet⟩
  · rintro ⟨data, h, w, hWays, hFree, rfl⟩
    exact h.connect hWays hFree

variable {nd : NodeDecl} {n : Node} {link : Option (Text × Nat)} {lines : List Text}
variable {decls : Decls} {d : Description} {y : Nat}

theorem clean_resolveLink {o : Option Nat} : (resolveLink dict link).Clean o ↔
    (∀ l, link = some l → (dict l.1).isSome) ∧ (link.bind fun l => dict l.1) = o := by
  cases link with
  | none => simp [resolveLink]
  | some l => simp [resolveLink, Option.isSome_iff_ne_none]

/-- The node that a declaration stands for: every name in it is known. -/
structure NodeDecl.Resolves (dict : Option Text → Option Nat) (nd : NodeDecl) (n : Node) :
    Prop where
  known : ∀ link name y, nd.link link = some (name, y) → (dict name).isSome
  name : n.name = nd.name
  kind : n.kind = nd.kind
  num : n.num = nd.num
  reverse : n.reverse = (nd.link .reverse).bind fun l => dict l.1
  way : ∀ w, n.way w = (nd.link (.way w)).bind fun l => dict l.1

theorem clean_resolve : (resolve dict nd).Clean n ↔ nd.Resolves dict n := by
  rw [resolve]
  simp only [clean_bind, clean_resolveLink, clean_pure]
  constructor
  · rintro ⟨_, ⟨hReverse, rfl⟩, _, ⟨hAhead, rfl⟩, _, ⟨hStraight, rfl⟩, _, ⟨hCurved, rfl⟩, rfl⟩
    refine ⟨fun link name y hLink => ?_, rfl, rfl, rfl, rfl, fun w => by cases w <;> rfl⟩
    rcases link with _ | _ | _ | _
    · exact hReverse _ hLink
    · exact hAhead _ hLink
    · exact hStraight _ hLink
    · exact hCurved _ hLink
  · intro h
    have hKnown (link : Link) : ∀ l, nd.link link = some l → (dict l.1).isSome :=
      fun l hl => h.known link l.1 l.2 hl
    refine ⟨_, ⟨hKnown _, rfl⟩, _, ⟨hKnown _, rfl⟩, _, ⟨hKnown _, rfl⟩, _, ⟨hKnown _, rfl⟩, ?_⟩
    obtain ⟨name, kind, num, reverse, way⟩ := n
    obtain ⟨-, rfl, rfl, rfl, rfl, hWay⟩ := h
    congr 1
    funext w
    cases w <;> exact (hWay _).symm

theorem clean_checkEdges {u : PUnit} : (checkEdges y nodes data).Clean u ↔
    ∀ i w j, target nodes i w = some j → (data i w).isSome := by
  have hOne (i : Nat) (w : Way) (u : PUnit) : (checkEdge y nodes data i w).Clean u ↔
      ∀ j, target nodes i w = some j → (data i w).isSome := by
    rw [checkEdge]
    cases target nodes i w <;> simp [Option.isSome_iff_ne_none]
  simp only [checkEdges, clean_forM, hOne, List.mem_range, mem_ways, true_implies]
  refine ⟨fun h i w j hTarget => h i ?_ w j hTarget, fun h i _ w => h i w⟩
  obtain ⟨n, hn, -⟩ := Option.bind_eq_some_iff.mp hTarget
  exact (List.getElem?_eq_some_iff.mp hn).1

/-- The nodes that the names stand for, and an edge for each way. -/
structure Decls.Links (decls : Decls) (d : Description) : Prop where
  function : d.function = decls.function
  nodes : List.Forall₂ (fun nd n => nd.Resolves (nameToNode decls.nodes) n) decls.nodes d.nodes
  known : ∀ e ∈ decls.edges, (nameToNode decls.nodes e.node1).isSome ∧
    (nameToNode decls.nodes e.node2).isSome
  connected : Connected d.nodes
    (decls.edges.flatMap (connections (nameToNode decls.nodes) d.nodes)) d.data
  complete : ∀ i w j, target d.nodes i w = some j → (d.data i w).isSome

/-- A description is accepted exactly if its sections declare nodes and edges, every name is that
of a node, and the edges, in both directions, are the ways of the nodes, each of them once. -/
theorem accepts_iff : Accepts lines d ↔ ∃ p name decls,
    properties 0 (sections 0 (lines.map removeJunk)).1 = [p] ∧ p.function = some name ∧
      Decls.StatedBy (some name) (sections 0 (lines.map removeJunk)).2 decls ∧ decls.Links d := by
  rw [Accepts, track]
  simp only [clean_bind, clean_declarations, clean_mapM, clean_resolve, clean_linkEdges,
    clean_connects, clean_checkEdges, exists_const, clean_pure]
  constructor
  · rintro ⟨decls, ⟨p, name, hOne, hName, hStated⟩, nodes, hNodes, data, ⟨hKnown, hConnected⟩,
      hComplete, rfl⟩
    exact ⟨p, name, decls, hOne, hName, hStated, rfl, hNodes, hKnown, hConnected, hComplete⟩
  · rintro ⟨p, name, decls, hOne, hName, hStated, hFunction, hNodes, hKnown, hConnected, hComplete⟩
    refine ⟨decls, ⟨p, name, hOne, hName, hStated⟩, d.nodes, hNodes, d.data,
      ⟨hKnown, hConnected⟩, hComplete, ?_⟩
    rw [← hFunction]

end TrainKernel.TrackData
