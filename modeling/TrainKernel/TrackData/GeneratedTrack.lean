import Mathlib.Data.Fintype.Card
import TrainKernel.TrackData.GeneratedTable
import TrainKernel.User.Layout

/-!
# The generated track

What the generated code makes of an accepted description is a track as the other programs rely on
it, if the description meets the few conditions that the parser does not check.
-/

namespace TrainKernel.TrackData

open Function Library.Reports Library.Int32 Reported User

def Kind.reverse : Kind → Kind
  | sensor => .sensor
  | branch => .merge
  | merge => .branch
  | enter => .exit
  | exit => .enter

theorem Kind.nodeType_reverse (k : Kind) : k.reverse.nodeType = k.nodeType.reverse := by
  cases k <;> rfl

theorem Kind.nodeType_inj {k k' : Kind} (h : k.nodeType = k'.nodeType) : k = k' := by
  cases k <;> cases k' <;> first | rfl | cases h

def kindOf (nodes : List Node) (i : Nat) : Option Kind := nodes[i]?.bind Node.kind

variable {lines : List Text} {d : Description} {i j i' j' : Nat} {w w' : Way} {n : Node} {k : Kind}
variable {code : List Stmt} {t : Table} {dir : Dir}

/-- What the parser leaves to those who write the description. The numbers are meant as the table
holds them. -/
structure Description.Plausible (d : Description) : Prop where
  involutive : d.Involutive
  reverse_ne : ∀ i, reverseOf d.nodes i ≠ some i
  kind_reverse : ∀ i j, reverseOf d.nodes i = some j →
    kindOf d.nodes j = (kindOf d.nodes i).map Kind.reverse
  target_ne : ∀ i w, target d.nodes i w ≠ some i
  dist_nonneg : ∀ i w e n, d.data i w = some e → e.dist = some n → 0 ≤ wrap32 n
  isTurnout : ∀ (i : Nat) (n : Node) (num : Int), d.nodes[i]? = some n → n.kind = some .branch →
    n.num = some num → IsTurnout (wrap32 num)
  size_le : d.nodes.length ≤ trackMax

section Fields

variable {a b : Fin d.nodes.length}

theorem Table.node_eq_some {size : Nat} {o : Option Nat} {a : Fin size} :
    Table.node size o = some a ↔ o = some a.val := by
  rw [Table.node, Option.bind_eq_some_iff]
  constructor
  · rintro ⟨i, hi, hNode⟩
    split_ifs at hNode with hLt
    rw [← Option.some_inj.mp hNode, hi]
  · intro h
    exact ⟨a, h, dif_pos a.isLt⟩

namespace Description

theorem Sound.exists_node (h : d.Sound) (a : Fin d.nodes.length) : ∃ (n : Node) (k : Kind),
    d.nodes[a.val]? = some n ∧ n.Complete d.nodes.length k := by
  have hn := List.getElem?_eq_getElem a.isLt
  obtain ⟨k, hComplete⟩ := h.node a _ hn
  exact ⟨_, k, hn, hComplete⟩

namespace Fills

variable (hFills : d.Fills t)
include hFills

theorem track_type (hn : d.nodes[a.val]? = some n) (hKind : n.kind = some k) :
    (t.track d.nodes.length).type a = k.nodeType := (hFills.node a n k hn hKind).2.2.2.1

theorem track_num (hn : d.nodes[a.val]? = some n) (hKind : n.kind = some k) :
    (t.track d.nodes.length).num a = wrap32 (n.num.getD 0) :=
  (hFills.node a n k hn hKind).2.2.2.2.1

theorem edges_eq (hn : d.nodes[a.val]? = some n) (hKind : n.kind = some k) :
    (t.track d.nodes.length).edges a = k.ways.map Way.dir := by
  rw [Track.edges, hFills.track_type hn hKind]
  cases k <;> rfl

/-- An edge of the table is that of a way, or it is empty. -/
theorem edge_cases (i : Nat) (dir : Dir) :
    (∃ w j, w.dir = dir ∧ target d.nodes i w = some j) ∨ (t i).edge dir = .zero := by
  by_contra hNone
  rw [not_or, not_exists] at hNone
  refine hNone.2 (hFills.noEdge i dir fun w hDir => ?_)
  rw [Option.eq_none_iff_forall_ne_some]
  exact fun j hTarget => hNone.1 w ⟨j, hDir, hTarget⟩

variable (h : d.Sound)
include h

theorem track_idx (hSize : d.nodes.length ≤ trackMax) (a : Fin d.nodes.length) :
    (t.track d.nodes.length).idx a = a.val := by
  obtain ⟨n, k, hn, hComplete⟩ := h.exists_node a
  have hLt : a.val < trackMax := a.isLt.trans_le hSize
  have hFits : FitsInt a.val := by
    rw [trackMax] at hLt
    exact ⟨by omega, by omega⟩
  rw [← wrap32_of_fits hFits]
  exact (hFills.node a n k hn hComplete.kind).1

theorem reverse_eq (a : Fin d.nodes.length) : (t a).reverse = reverseOf d.nodes a := by
  obtain ⟨n, k, hn, hComplete⟩ := h.exists_node a
  rw [reverseOf, hn]
  exact (hFills.node a n k hn hComplete.kind).2.2.2.2.2

theorem track_reverse : (t.track d.nodes.length).reverse a = b ↔
    reverseOf d.nodes a = some b.val := by
  obtain ⟨n, k, hn, -⟩ := h.exists_node a
  obtain ⟨i, hi, hReverse⟩ := h.exists_reverse hn
  have hNode : Table.node d.nodes.length (t a).reverse = some ⟨i, hi⟩ :=
    Table.node_eq_some.mpr ((hFills.reverse_eq h a).trans hReverse)
  change (Table.node d.nodes.length (t a).reverse).getD a = b ↔ _
  rw [hNode, Option.getD_some, hReverse, Option.some_inj]
  exact Fin.ext_iff

theorem reverseOf_track (a : Fin d.nodes.length) :
    reverseOf d.nodes a = some ((t.track d.nodes.length).reverse a).val :=
  (hFills.track_reverse h).mp rfl

theorem track_edgeEntry (hTarget : target d.nodes a w = some j) : ∃ i' j' e dist,
    reverseOf d.nodes a = some i' ∧ reverseOf d.nodes j = some j' ∧ d.data a w = some e ∧
      e.dist = some dist ∧ (t a).edge w.dir = d.edgeEntry a j j' i' dist := by
  obtain ⟨i', j', hi, hj⟩ := h.exists_reverses hTarget
  obtain ⟨e, dist, he, hDist, hEntry⟩ := hFills.edge a w j i' j' hTarget hi hj
  exact ⟨i', j', e, dist, hi, hj, he, hDist, hEntry⟩

theorem track_dest : (t.track d.nodes.length).dest a dir = some b ↔
    ∃ w, w.dir = dir ∧ target d.nodes a w = some b.val := by
  change Table.node _ ((t a).edge dir).dest = some b ↔ _
  rw [Table.node_eq_some]
  constructor
  · intro hDest
    rcases hFills.edge_cases a dir with ⟨w, j, rfl, hTarget⟩ | hZero
    · obtain ⟨i', j', e, dist, -, -, -, -, hEntry⟩ := hFills.track_edgeEntry h hTarget
      rw [hEntry] at hDest
      obtain rfl : j = b := Option.some_inj.mp hDest
      exact ⟨w, rfl, hTarget⟩
    · rw [hZero] at hDest
      cases hDest
  · rintro ⟨w, rfl, hTarget⟩
    obtain ⟨i', j', e, dist, -, -, -, -, hEntry⟩ := hFills.track_edgeEntry h hTarget
    rw [hEntry, edgeEntry]

theorem track_edge : (t.track d.nodes.length).Edge a b ↔
    ∃ w, target d.nodes a w = some b.val := by
  obtain ⟨n, k, hn, hComplete⟩ := h.exists_node a
  simp only [Track.Edge, hFills.edges_eq hn hComplete.kind, hFills.track_dest h, List.mem_map]
  constructor
  · rintro ⟨-, -, w, -, hTarget⟩
    exact ⟨w, hTarget⟩
  · rintro ⟨w, hTarget⟩
    have hWay : n.way w = some b.val := by rwa [target, hn, Option.bind_some] at hTarget
    exact ⟨w.dir, ⟨w, (hComplete.way w).mp (by simp [hWay]), rfl⟩, w, rfl, hTarget⟩

theorem track_dist_nonneg : (∀ a dir, 0 ≤ (t.track d.nodes.length).dist a dir) ↔
    ∀ i w e n, d.data i w = some e → e.dist = some n → 0 ≤ wrap32 n := by
  change (∀ (a : Fin d.nodes.length) dir, 0 ≤ ((t a).edge dir).dist) ↔ _
  constructor
  · intro hTrack i w e n he hDist
    obtain ⟨j, hTarget⟩ := h.way i w e he
    obtain ⟨nd, hn, -⟩ := Option.bind_eq_some_iff.mp hTarget
    have hi := (List.getElem?_eq_some_iff.mp hn).1
    obtain ⟨i', j', e', n', -, -, he', hDist', hEntry⟩ :=
      hFills.track_edgeEntry (a := ⟨i, hi⟩) h hTarget
    obtain rfl := Option.some_inj.mp (he.symm.trans he')
    obtain rfl := Option.some_inj.mp (hDist.symm.trans hDist')
    have hNonneg := hTrack ⟨i, hi⟩ w.dir
    rw [hEntry] at hNonneg
    exact hNonneg
  · intro hData a dir
    rcases hFills.edge_cases a dir with ⟨w, j, rfl, hTarget⟩ | hZero
    · obtain ⟨i', j', e, dist, -, -, he, hDist, hEntry⟩ := hFills.track_edgeEntry h hTarget
      rw [hEntry]
      exact hData a w e dist he hDist
    · rw [hZero]
      exact le_rfl

end Fills

end Description

end Fields

theorem Accepts.exists_links (h : Accepts lines d) : ∃ f secs decls,
    Decls.StatedBy f secs decls ∧ decls.Links d := by
  obtain ⟨p, name, decls, -, -, hStated, hLinks⟩ := accepts_iff.mp h
  exact ⟨_, _, decls, hStated, hLinks⟩

theorem Accepts.sound (h : Accepts lines d) : d.Sound := by
  obtain ⟨f, secs, decls, hStated, hLinks⟩ := h.exists_links
  exact hLinks.sound hStated

theorem Accepts.fills (h : Accepts lines d) (hCode : d.code = some code) :
    d.Fills (runCode code) := by
  obtain ⟨code', hCode', hFills⟩ := h.sound.code_fills
  obtain rfl := Option.some_inj.mp (hCode.symm.trans hCode')
  exact hFills

theorem Accepts.opposite (h : Accepts lines d) (hInvolutive : d.Involutive)
    (hTarget : target d.nodes i w = some j) (hi : reverseOf d.nodes i = some i')
    (hj : reverseOf d.nodes j = some j') : j ≠ i' ∧
      ∃ w', waysTo d.nodes j' i' = [w'] ∧ d.data j' w' = d.data i w := by
  obtain ⟨f, secs, decls, -, hLinks⟩ := h.exists_links
  exact hLinks.opposite hInvolutive hTarget hi hj

theorem Description.Sound.lift_reverse (h : d.Sound) (hReverse : reverseOf d.nodes i = some j) :
    ∃ a b : Fin d.nodes.length, a.val = i ∧ b.val = j := by
  obtain ⟨n, hn, -⟩ := Option.bind_eq_some_iff.mp hReverse
  obtain ⟨j', hj, hReverse'⟩ := h.exists_reverse hn
  obtain rfl := Option.some_inj.mp (hReverse.symm.trans hReverse')
  exact ⟨⟨i, (List.getElem?_eq_some_iff.mp hn).1⟩, ⟨j, hj⟩, rfl, rfl⟩

theorem Description.Sound.lift_target (h : d.Sound) (hTarget : target d.nodes i w = some j) :
    ∃ a b : Fin d.nodes.length, a.val = i ∧ b.val = j := by
  obtain ⟨n, hn, -⟩ := Option.bind_eq_some_iff.mp hTarget
  exact ⟨⟨i, (List.getElem?_eq_some_iff.mp hn).1⟩, ⟨j, h.target_lt hTarget⟩, rfl, rfl⟩

section Plausible

variable (h : d.Sound) (hFills : d.Fills t)
include h hFills

theorem kindOf_eq_some {a : Fin d.nodes.length} : kindOf d.nodes a = some k ↔
    (t.track d.nodes.length).type a = k.nodeType := by
  obtain ⟨n, k', hn, hComplete⟩ := h.exists_node a
  rw [kindOf, hn, Option.bind_some, hFills.track_type hn hComplete.kind, hComplete.kind,
    Option.some_inj]
  exact ⟨congrArg Kind.nodeType, Kind.nodeType_inj⟩

theorem plausible_of_laidOut (hTrack : (t.track d.nodes.length).LaidOut) : d.Plausible where
  involutive i j hij := by
    obtain ⟨a, b, rfl, rfl⟩ := h.lift_reverse hij
    rw [← hFills.track_reverse h] at hij ⊢
    rw [← hij]
    exact hTrack.reverse_involutive a
  reverse_ne i hi := by
    obtain ⟨a, b, rfl, -⟩ := h.lift_reverse hi
    exact hTrack.reverse_ne a ((hFills.track_reverse h).mpr hi)
  kind_reverse i j hij := by
    obtain ⟨a, b, rfl, rfl⟩ := h.lift_reverse hij
    obtain ⟨n, k, hn, hComplete⟩ := h.exists_node a
    have hKind : kindOf d.nodes a = some k := by
      rw [kindOf, hn, Option.bind_some, hComplete.kind]
    rw [hKind, Option.map_some, kindOf_eq_some h hFills, Kind.nodeType_reverse,
      ← (kindOf_eq_some h hFills).mp hKind, ← hTrack.type_reverse,
      (hFills.track_reverse h).mpr hij]
  target_ne i w hi := by
    obtain ⟨a, b, rfl, -⟩ := h.lift_target hi
    exact (hTrack.dest_ne a w.dir a ((hFills.track_dest h).mpr ⟨w, rfl, hi⟩)).1 rfl
  dist_nonneg := (hFills.track_dist_nonneg h).mp hTrack.dist_nonneg
  isTurnout i n num hn hKind hNum := by
    let a : Fin d.nodes.length := ⟨i, (List.getElem?_eq_some_iff.mp hn).1⟩
    have hBranch : (t.track d.nodes.length).type a = .branch := hFills.track_type hn hKind
    have hTurnout := hTrack.isTurnout a hBranch
    rwa [hFills.track_num hn hKind, hNum] at hTurnout
  size_le := by
    have hCard := hTrack.card_le
    rwa [Fintype.card_fin] at hCard

theorem laidOut_of_plausible (hPlausible : d.Plausible)
    (hOpposite : ∀ i w j i' j', target d.nodes i w = some j → reverseOf d.nodes i = some i' →
      reverseOf d.nodes j = some j' → j ≠ i' ∧ ∃ w', target d.nodes j' w' = some i') :
    (t.track d.nodes.length).LaidOut where
  idx_injective a b hab := by
    rw [hFills.track_idx h hPlausible.size_le, hFills.track_idx h hPlausible.size_le,
      Nat.cast_inj] at hab
    exact Fin.ext hab
  reverse_involutive a :=
    (hFills.track_reverse h).mpr (hPlausible.involutive _ _ (hFills.reverseOf_track h a))
  reverse_ne a ha := hPlausible.reverse_ne a ((hFills.track_reverse h).mp ha)
  dest_isSome a dir hDir := by
    obtain ⟨n, k, hn, hComplete⟩ := h.exists_node a
    rw [hFills.edges_eq hn hComplete.kind, List.mem_map] at hDir
    obtain ⟨w, hw, rfl⟩ := hDir
    obtain ⟨j, hj⟩ := Option.isSome_iff_exists.mp ((hComplete.way w).mpr hw)
    have hTarget : target d.nodes a w = some j := by rw [target, hn, Option.bind_some, hj]
    refine Option.isSome_iff_exists.mpr ⟨⟨j, h.target_lt hTarget⟩, ?_⟩
    exact (hFills.track_dest h).mpr ⟨w, rfl, hTarget⟩
  dest_ne a dir b hDest := by
    obtain ⟨w, rfl, hTarget⟩ := (hFills.track_dest h).mp hDest
    constructor
    · rintro rfl
      exact hPlausible.target_ne b w hTarget
    · rintro rfl
      exact (hOpposite _ _ _ _ _ hTarget (hFills.reverseOf_track h a)
        (hFills.reverseOf_track h _)).1 rfl
  dist_nonneg := (hFills.track_dist_nonneg h).mpr hPlausible.dist_nonneg
  card_le := (Fintype.card_fin _).trans_le hPlausible.size_le
  type_ne_none a := by
    obtain ⟨n, k, hn, hComplete⟩ := h.exists_node a
    rw [hFills.track_type hn hComplete.kind]
    cases k <;> decide
  type_reverse a := by
    obtain ⟨n, k, hn, hComplete⟩ := h.exists_node a
    have hKind : kindOf d.nodes a = some k := by
      rw [kindOf, hn, Option.bind_some, hComplete.kind]
    have hReverse := hPlausible.kind_reverse _ _ (hFills.reverseOf_track h a)
    rw [hKind, Option.map_some, kindOf_eq_some h hFills, Kind.nodeType_reverse] at hReverse
    rw [hReverse, hFills.track_type hn hComplete.kind]
  edge_reverse a b hEdge := by
    obtain ⟨w, hTarget⟩ := (hFills.track_edge h).mp hEdge
    exact (hFills.track_edge h).mpr (hOpposite _ _ _ _ _ hTarget (hFills.reverseOf_track h a)
      (hFills.reverseOf_track h b)).2
  isTurnout a hBranch := by
    obtain ⟨n, k, hn, hComplete⟩ := h.exists_node a
    rw [hFills.track_type hn hComplete.kind] at hBranch
    obtain rfl : k = .branch := Kind.nodeType_inj hBranch
    obtain ⟨num, hNum⟩ := Option.isSome_iff_exists.mp hComplete.num
    rw [hFills.track_num hn hComplete.kind, hNum]
    exact hPlausible.isTurnout a n num hn hComplete.kind hNum

end Plausible

/-- An accepted description makes a track as the route search and the engineers need it exactly if
it is plausible: what else they need of a track the parser has checked. -/
theorem laidOut_iff_plausible (h : Accepts lines d) (hCode : d.code = some code) :
    ((runCode code).track d.nodes.length).LaidOut ↔ d.Plausible := by
  have hFills := h.fills hCode
  refine ⟨plausible_of_laidOut h.sound hFills, fun hPlausible => ?_⟩
  apply laidOut_of_plausible h.sound hFills hPlausible
  intro i w j i' j' hTarget hi hj
  obtain ⟨hNe, w', hWays, -⟩ := h.opposite hPlausible.involutive hTarget hi hj
  exact ⟨hNe, w', target_of_waysTo hWays⟩

/-- Two dead ends with a track between them. -/
def shuttleText : List Text :=
  ["function init_shuttle", "", "node EN1:", "  enter", "  reverse EX1", "  ahead EX2",
    "node EX1:", "  exit # of the second one", "  reverse EN1", "node EN2:", "  reverse EX2",
    "  ahead EX1", "  enter", "node EX2:", "  exit", "  reverse EN2", "edge EN1 EX2:",
    "  distance 400 mm"].map String.toList

def shuttle : Description :=
  (track (shuttleText.map removeJunk)).value.getD ⟨none, [], fun _ _ => none⟩

def shuttleCode : List Stmt := shuttle.code.getD []

theorem accepts_shuttle : Accepts shuttleText shuttle where
  value := by
    have hSome : (track (shuttleText.map removeJunk)).value.isSome := by decide +kernel
    exact (Option.some_get hSome).symm.trans (congrArg some (Option.get_eq_getD _))
  reports := by decide +kernel

theorem code_shuttle : shuttle.code = some shuttleCode := by
  have hSome : shuttle.code.isSome := by decide +kernel
  exact (Option.some_get hSome).symm.trans (congrArg some (Option.get_eq_getD _))

theorem laidOut_iff_plausible_shuttle :
    ((runCode shuttleCode).track shuttle.nodes.length).LaidOut ↔ shuttle.Plausible :=
  laidOut_iff_plausible accepts_shuttle code_shuttle

/-- On an accepted description whose reverses are mutual the edges of the table come in pairs: the
pointer of an edge leads to the edge from the reverse of its end to the reverse of its beginning,
which is as long and whose pointer leads back. -/
theorem edges_paired (h : Accepts lines d) (hInvolutive : d.Involutive)
    (hCode : d.code = some code) (hDest : ((runCode code i).edge dir).dest = some j) :
    ∃ i' j' dir', (runCode code i).reverse = some i' ∧ (runCode code j).reverse = some j' ∧
      j ≠ i' ∧ ((runCode code i).edge dir).reverse = some (j', dir') ∧
      ((runCode code j').edge dir').src = some j' ∧
      ((runCode code j').edge dir').dest = some i' ∧
      ((runCode code j').edge dir').dist = ((runCode code i).edge dir).dist ∧
      ((runCode code j').edge dir').reverse = some (i, dir) := by
  have hFills := h.fills hCode
  have hSound := h.sound
  rcases hFills.edge_cases i dir with ⟨w, j₁, rfl, hTarget⟩ | hZero
  case inr =>
    rw [hZero] at hDest
    cases hDest
  obtain ⟨a, b, rfl, rfl⟩ := hSound.lift_target hTarget
  obtain ⟨i', j', e, dist, hi, hj, he, hDist, hEntry⟩ := hFills.track_edgeEntry hSound hTarget
  obtain ⟨hNe, w', hWays', hSame⟩ := h.opposite hInvolutive hTarget hi hj
  have hTarget' := target_of_waysTo hWays'
  have hi' := hInvolutive _ _ hi
  have hj' := hInvolutive _ _ hj
  obtain ⟨-, w₁, hWays, -⟩ := h.opposite hInvolutive hTarget' hj' hi'
  obtain rfl : w = w₁ := List.mem_singleton.mp (hWays ▸ mem_waysTo.mpr hTarget)
  obtain ⟨e', dist', he', hDist', hEntry'⟩ := hFills.edge j' w' i' b a hTarget' hj' hi'
  obtain rfl := Option.some_inj.mp (he'.symm.trans (hSame.trans he))
  obtain rfl := Option.some_inj.mp (hDist'.symm.trans hDist)
  rw [hEntry] at hDest ⊢
  obtain rfl : b.val = j := Option.some_inj.mp hDest
  refine ⟨i', j', w'.dir, ?_, ?_, hNe, ?_, ?_⟩
  · rw [hFills.reverse_eq hSound, hi]
  · rw [hFills.reverse_eq hSound, hj]
  · simp [Description.edgeEntry, hWays']
  · rw [hEntry']
    simp [Description.edgeEntry, hWays]

theorem involutive_shuttle : shuttle.Involutive := by
  have hAll : ∀ i < shuttle.nodes.length,
      (reverseOf shuttle.nodes i).bind (reverseOf shuttle.nodes) = some i := by decide +kernel
  intro i j hij
  obtain ⟨n, hn, -⟩ := Option.bind_eq_some_iff.mp hij
  have hBack := hAll i (List.getElem?_eq_some_iff.mp hn).1
  rwa [hij, Option.bind_some] at hBack

theorem edges_paired_shuttle :
    ∃ i' j' dir', (runCode shuttleCode 0).reverse = some i' ∧
      (runCode shuttleCode 3).reverse = some j' ∧ 3 ≠ i' ∧
      ((runCode shuttleCode 0).edge dirAhead).reverse = some (j', dir') ∧
      ((runCode shuttleCode j').edge dir').src = some j' ∧
      ((runCode shuttleCode j').edge dir').dest = some i' ∧
      ((runCode shuttleCode j').edge dir').dist = ((runCode shuttleCode 0).edge dirAhead).dist ∧
      ((runCode shuttleCode j').edge dir').reverse = some (0, dirAhead) :=
  edges_paired accepts_shuttle involutive_shuttle code_shuttle (by decide +kernel)

end TrainKernel.TrackData
