import Mathlib.Data.List.Nodup
import TrainKernel.TrackData.Connections

/-!
# What is known of an accepted description

Every node has a type, a reverse and the ways of its type, and every way has an edge with a
distance. If the reverse of the reverse is the node itself, which the parser does not check, the
edges come in pairs.
-/

namespace TrainKernel.TrackData

open Function Library.Reports Reported

variable {lines : List Text} {d : Description} {nodes : List NodeDecl} {key : Option Text}
variable {i i' j j' : Nat} {w w' : Way} {n : Node} {nd : NodeDecl} {p : Property} {e : EdgeDecl}
variable {decls : Decls} {f : Option Text} {secs : List Section} {name : Option Text}
variable {ps : List Property} {kind : Kind}

theorem nameToNode_concat (nd : NodeDecl) : nameToNode (nodes ++ [nd]) =
    update (nameToNode nodes) nd.name (some nodes.length) := by
  rw [nameToNode, List.zipIdx_append, List.foldl_append]
  simp [nameToNode]

theorem nameToNode_lt (h : nameToNode nodes key = some i) : i < nodes.length := by
  induction nodes using List.reverseRecOn with
  | nil => cases h
  | append_singleton nodes nd ih =>
    rw [nameToNode_concat, update_apply] at h
    rw [List.length_append]
    split_ifs at h with hKey
    · obtain rfl := Option.some_inj.mp h
      simp
    · exact (ih h).trans (by simp)

theorem Property.kindEntry_num {e : Kind × Option Int} (h : p.kindEntry = some e) :
    e.2.isSome = e.1.numbered := by
  obtain ⟨kind, -, hEntry⟩ := Option.bind_eq_some_iff.mp h
  split_ifs at hEntry with hNumbered hArgs
  · rcases hSplit : p.args with _ | ⟨arg, _ | ⟨arg', args⟩⟩ <;> rw [hSplit] at hEntry
    · cases hEntry
    · obtain ⟨num, -, rfl⟩ := Option.map_eq_some_iff.mp hEntry
      exact hNumbered.symm
    · cases hEntry
  · obtain rfl := Option.some_inj.mp hEntry
    simpa using hNumbered

theorem NodeDecl.States.num_isSome (h : nd.States name ps) (hKind : nd.kind = some kind) :
    nd.num.isSome = kind.numbered := by
  have hMem : (kind, nd.num) ∈ ps.filterMap Property.kindEntry := by
    simp [h.kind, NodeDecl.kindEntry, hKind]
  obtain ⟨p, -, hp⟩ := List.mem_filterMap.mp hMem
  exact Property.kindEntry_num hp

/-- A node of a table of `size` nodes. -/
structure Node.Complete (size : Nat) (n : Node) (k : Kind) : Prop where
  name : n.name.isSome
  kind : n.kind = some k
  num : n.num.isSome = k.numbered
  reverse : ∃ i < size, n.reverse = some i
  way : ∀ w, (n.way w).isSome ↔ w ∈ k.ways
  way_lt : ∀ w i, n.way w = some i → i < size

theorem Section.DeclaresNode.complete {s : Section} {args : List Text}
    (h : s.DeclaresNode args nd) (hResolves : nd.Resolves (nameToNode nodes) n) :
    ∃ kind, n.Complete nodes.length kind := by
  obtain ⟨name, -, hStates⟩ := h.states
  obtain ⟨kind, hKind, hWays⟩ := h.ways
  have hFound {link : Link} {l : Text × Nat} (hLink : nd.link link = some l) :
      ∃ i, nameToNode nodes l.1 = some i :=
    Option.isSome_iff_exists.mp (hResolves.known link l.1 l.2 hLink)
  refine ⟨kind, ?_, hResolves.kind.trans hKind, ?_, ?_, fun w => ?_, fun w i hWay => ?_⟩
  · rw [hResolves.name, hStates.name]
    rfl
  · rw [hResolves.num]
    exact hStates.num_isSome hKind
  · obtain ⟨l, hLink⟩ := Option.ne_none_iff_exists'.mp h.reverse
    obtain ⟨i, hi⟩ := hFound hLink
    refine ⟨i, nameToNode_lt hi, ?_⟩
    rw [hResolves.reverse, hLink, Option.bind_some, hi]
  · have hMem : w ∈ kind.ways ↔ (nd.link (.way w)).isSome := by
      simp [← hWays, NodeDecl.ways, mem_ways]
    rw [hMem, hResolves.way]
    cases hLink : nd.link (.way w) with
    | none => simp
    | some l =>
      obtain ⟨i, hi⟩ := hFound hLink
      simp [hi]
  · rw [hResolves.way] at hWay
    obtain ⟨l, -, hi⟩ := Option.bind_eq_some_iff.mp hWay
    exact nameToNode_lt hi

/-- What the generator relies on. -/
structure Description.Sound (d : Description) : Prop where
  node : ∀ (i : Nat) (n : Node), d.nodes[i]? = some n → ∃ k, n.Complete d.nodes.length k
  edge : ∀ i w j, target d.nodes i w = some j → ∃ e, d.data i w = some e ∧ e.dist.isSome
  way : ∀ i w e, d.data i w = some e → ∃ j, target d.nodes i w = some j

/-- The parser does not check this. -/
def Description.Involutive (d : Description) : Prop :=
  ∀ i j, reverseOf d.nodes i = some j → reverseOf d.nodes j = some i

theorem connection_edge {dict : Option Text → Option Nat} {nodes : List Node} {c : Connection}
    (h : c ∈ connections dict nodes e) : c.edge = e := by
  rw [connections] at h
  split at h
  · rcases List.mem_cons.mp h with rfl | h
    · rfl
    · split at h
      · rw [List.mem_singleton.mp h]
      · cases h
  · cases h

theorem Decls.StatedBy.dist_isSome (h : decls.StatedBy f secs) (he : e ∈ decls.edges) :
    e.dist.isSome := by
  obtain ⟨i, hi, rfl⟩ := List.getElem_of_mem he
  have hLength := h.edges.length_eq
  obtain ⟨p, n, -, -, hDist⟩ := ((List.forall₂_iff_get.mp h.edges).2 i (hLength ▸ hi) hi).dist
  exact Option.isSome_iff_exists.mpr ⟨n, hDist⟩

theorem Decls.Links.sound (hStated : decls.StatedBy f secs) (hLinks : decls.Links d) :
    d.Sound where
  node i n hn := by
    have hLength := hLinks.nodes.length_eq
    have hi : i < decls.nodes.length := hLength ▸ (List.getElem?_eq_some_iff.mp hn).1
    have hResolves := (List.forall₂_iff_get.mp hLinks.nodes).2 i hi (hLength ▸ hi)
    have hLength' := hStated.nodes.length_eq
    have hDeclares := (List.forall₂_iff_get.mp hStated.nodes).2 i (hLength' ▸ hi) hi
    have hNode : d.nodes.get ⟨i, hLength ▸ hi⟩ = n := (List.getElem?_eq_some_iff.mp hn).2
    rw [hNode] at hResolves
    have hComplete := hDeclares.complete hResolves
    rwa [hLength] at hComplete
  edge i w j hTarget := by
    obtain ⟨e, he⟩ := Option.isSome_iff_exists.mp (hLinks.complete i w j hTarget)
    obtain ⟨c, hc, -, rfl, -⟩ := (hLinks.connected.data i w e).mp he
    obtain ⟨e, hEdge, hc⟩ := List.mem_flatMap.mp hc
    obtain rfl := connection_edge hc
    exact ⟨_, he, hStated.dist_isSome hEdge⟩
  way i w e he := by
    obtain ⟨c, -, -, -, hWays⟩ := (hLinks.connected.data i w e).mp he
    exact ⟨c.dest, target_of_waysTo hWays⟩

theorem connections_opposite {dict : Option Text → Option Nat} {c : Connection}
    (hInvolutive : d.Involutive) (h : c ∈ connections dict d.nodes e)
    (hSrc : reverseOf d.nodes c.src = some i') (hDest : reverseOf d.nodes c.dest = some j') :
    ⟨j', i', c.edge⟩ ∈ connections dict d.nodes e ∧
      (((connections dict d.nodes e).map fun c => (c.src, c.dest)).Nodup → c.dest ≠ i') := by
  have hEdge := connection_edge h
  rw [connections] at h ⊢
  split at h
  case h_2 => cases h
  case h_1 i j hi hj =>
    rw [hEdge]
    rcases List.mem_cons.mp h with rfl | h
    · simp only [hSrc, hDest]
      refine ⟨by simp, fun hOnce hSame => ?_⟩
      have hBack : j' = i := by
        rw [hSame] at hDest
        exact Option.some_inj.mp (hDest.symm.trans (hInvolutive _ _ hSrc))
      simp [hSame, hBack] at hOnce
    · split at h
      case h_2 => cases h
      case h_1 i₁ j₁ hi₁ hj₁ =>
        obtain rfl := List.mem_singleton.mp h
        have hi' := hInvolutive _ _ hi₁
        have hj' := hInvolutive _ _ hj₁
        obtain rfl := Option.some_inj.mp (hSrc.symm.trans hj')
        obtain rfl := Option.some_inj.mp (hDest.symm.trans hi')
        refine ⟨by simp, fun hOnce hSame => ?_⟩
        obtain rfl : i₁ = i' := hSame
        obtain rfl : j₁ = j' := Option.some_inj.mp (hj₁.symm.trans hi')
        simp at hOnce

/-- The edge of a way is also that of the way back, and no way leads to the reverse. -/
theorem Decls.Links.opposite (hLinks : decls.Links d) (hInvolutive : d.Involutive)
    (hTarget : target d.nodes i w = some j) (hi : reverseOf d.nodes i = some i')
    (hj : reverseOf d.nodes j = some j') : j ≠ i' ∧
      ∃ w', waysTo d.nodes j' i' = [w'] ∧ d.data j' w' = d.data i w := by
  obtain ⟨e, he⟩ := Option.isSome_iff_exists.mp (hLinks.complete i w j hTarget)
  obtain ⟨c, hc, rfl, rfl, hWays⟩ := (hLinks.connected.data i w e).mp he
  obtain rfl := Option.some_inj.mp ((target_of_waysTo hWays).symm.trans hTarget)
  obtain ⟨e, hEdge, hc⟩ := List.mem_flatMap.mp hc
  obtain ⟨hBack, hNe⟩ := connections_opposite hInvolutive hc hi hj
  have hBack' : ⟨j', i', c.edge⟩ ∈ decls.edges.flatMap
      (connections (nameToNode decls.nodes) d.nodes) := List.mem_flatMap.mpr ⟨e, hEdge, hBack⟩
  obtain ⟨w', hWays'⟩ := hLinks.connected.single _ hBack'
  have hOnce := hLinks.connected.once
  rw [List.map_flatMap, List.nodup_flatMap] at hOnce
  refine ⟨hNe (hOnce.1 e hEdge), w', hWays', ?_⟩
  rw [he, hLinks.connected.data]
  exact ⟨_, hBack', rfl, rfl, hWays'⟩

end TrainKernel.TrackData
