import TrainKernel.TrackData.Accepted
import TrainKernel.TrackData.Generation

/-!
# The table that the generated code fills

The assignments for one node touch no other node, and those for one edge no other edge, so that the
table can be read off the description.
-/

namespace TrainKernel.TrackData

open Function User Library.Int32

variable {d : Description} {i i' j j' : Nat} {w w' : Way} {n : Node} {k : Kind} {e : EdgeDecl}
variable {fields : List Field} {fa fs fc : List EdgeField} {t : Table} {dir : Dir} {m : NodeEntry}

theorem foldl_run_apply (code : List Stmt) (t : Table) (i : Nat) : (code.foldl Stmt.run t) i =
    ((code.filter fun s => s.i = i).map Stmt.field).foldl Field.run (t i) := by
  induction code generalizing t with
  | nil => rfl
  | cons s code ih =>
    rw [List.foldl_cons, ih, Stmt.run, List.filter_cons]
    rcases eq_or_ne s.i i with rfl | hNe
    · simp
    · simp [hNe, update_of_ne hNe.symm]

theorem filter_code (fields : Nat → List Field) (size i : Nat) :
    (((List.range size).flatMap fun i => (fields i).map (Stmt.mk i)).filter fun s => s.i = i) =
      if i < size then (fields i).map (Stmt.mk i) else [] := by
  induction size with
  | zero => rfl
  | succ size ih =>
    rw [List.range_succ, List.flatMap_append, List.filter_append, ih, List.flatMap_singleton,
      List.filter_map]
    rcases Nat.lt_trichotomy i size with h | rfl | h
    · simp [h, Nat.lt_succ_of_lt h, comp_def, h.ne']
    · simp [comp_def]
    · rw [if_neg (by omega), if_neg (by omega)]
      simp [comp_def, h.ne]

theorem foldl_run_edge (fields : List EdgeField) (m : NodeEntry) (dir : Dir) :
    (fields.map (Field.edge dir)).foldl Field.run m =
      { m with edge := update m.edge dir (fields.foldl EdgeField.run (m.edge dir)) } := by
  induction fields generalizing m with
  | nil => simp
  | cons f fields ih =>
    rw [List.map_cons, List.foldl_cons, ih, Field.run]
    simp

theorem foldl_run_reverse (ws : List Way) (back : Nat) (entry : EdgeEntry) :
    (ws.map fun w => EdgeField.reverse back w.dir).foldl EdgeField.run entry =
      { entry with reverse := (ws.getLast?.map fun w => (back, w.dir)).or entry.reverse } := by
  induction ws using List.reverseRecOn with
  | nil => rfl
  | append_singleton ws w ih =>
    rw [List.map_append, List.foldl_append, ih]
    simp [EdgeField.run]

/-- The edge that a way leads along, as it is in the table. -/
def Description.edgeEntry (d : Description) (i j back home : Nat) (dist : Int) : EdgeEntry where
  reverse := (waysTo d.nodes back home).getLast?.map fun w => (back, w.dir)
  src := some i
  dest := some j
  dist := wrap32 dist

theorem Description.Sound.edgeFields (h : d.Sound) (hTarget : target d.nodes i w = some j)
    (hi : reverseOf d.nodes i = some i') (hj : reverseOf d.nodes j = some j') :
    ∃ fields e dist, TrackData.edgeFields d i w = some fields ∧ d.data i w = some e ∧
      e.dist = some dist ∧ fields.foldl EdgeField.run .zero = d.edgeEntry i j j' i' dist := by
  obtain ⟨e, he, hDist⟩ := h.edge i w j hTarget
  obtain ⟨dist, hDist⟩ := Option.isSome_iff_exists.mp hDist
  refine ⟨reverseFields d j' i' ++ [.src i, .dest j, .dist dist], e, dist, ?_, he, hDist, ?_⟩
  · rw [TrackData.edgeFields, hTarget]
    simp [hi, hj, he, hDist]
  · rw [List.foldl_append, reverseFields, foldl_run_reverse]
    simp [EdgeField.run, EdgeEntry.zero, edgeEntry]

theorem edgeFields_none (h : target d.nodes i w = none) : edgeFields d i w = some [] := by
  rw [edgeFields, h]

def Description.entry (i : Nat) (n : Node) (k : Kind) (reverse : Nat) (fa fs fc : List EdgeField) :
    NodeEntry where
  idx := wrap32 i
  owner := -1
  name := some (nameText n.name)
  type := k.nodeType
  num := wrap32 (n.num.getD 0)
  reverse := some reverse
  edge := fun dir => (if dir = dirCurved then fc else fa ++ fs).foldl EdgeField.run .zero

theorem nodeFields_eq (hKind : n.kind = some k) (hReverse : n.reverse = some i')
    (hAhead : edgeFields d i .ahead = some fa) (hStraight : edgeFields d i .straight = some fs)
    (hCurved : edgeFields d i .curved = some fc) : ∃ fields, nodeFields d i n = some fields ∧
      fields.foldl Field.run .zero = Description.entry i n k i' fa fs fc := by
  have hPlain : (plainFields i n k i').foldl Field.run .zero =
      ⟨wrap32 i, -1, some (nameText n.name), k.nodeType, wrap32 (n.num.getD 0), some i',
        fun _ => .zero⟩ := by
    have hZero : wrap32 0 = 0 := by decide
    have hOwner : wrap32 (-1) = -1 := by decide
    rw [plainFields]
    cases n.num <;> simp [Field.run, NodeEntry.zero, hZero, hOwner]
  refine ⟨plainFields i n k i' ++ (fa.map (.edge dirAhead) ++ fs.map (.edge dirStraight) ++
    fc.map (.edge dirCurved)), ?_, ?_⟩
  · simp only [nodeFields, hKind, hReverse, ways, wayFields, List.mapM_cons, List.mapM_nil, hAhead,
      hStraight, hCurved, Way.dir]
    simp
  · rw [List.foldl_append, hPlain]
    simp only [List.foldl_append, foldl_run_edge, Description.entry, NodeEntry.mk.injEq, true_and]
    funext dir
    match dir with
    | 0 => simp [dirAhead, dirStraight, dirCurved]
    | 1 => simp [dirAhead, dirStraight, dirCurved]

namespace Description.Sound

variable (h : d.Sound)
include h

theorem exists_reverse (hn : d.nodes[i]? = some n) :
    ∃ i' < d.nodes.length, reverseOf d.nodes i = some i' := by
  obtain ⟨k, hComplete⟩ := h.node i n hn
  obtain ⟨i', hi', hReverse⟩ := hComplete.reverse
  exact ⟨i', hi', by rw [reverseOf, hn, Option.bind_some, hReverse]⟩

theorem target_lt (hTarget : target d.nodes i w = some j) : j < d.nodes.length := by
  obtain ⟨n, hn, hWay⟩ := Option.bind_eq_some_iff.mp hTarget
  obtain ⟨k, hComplete⟩ := h.node i n hn
  exact hComplete.way_lt w j hWay

/-- Both ends of a way have a reverse. -/
theorem exists_reverses (hTarget : target d.nodes i w = some j) :
    ∃ i' j', reverseOf d.nodes i = some i' ∧ reverseOf d.nodes j = some j' := by
  obtain ⟨n, hn, -⟩ := Option.bind_eq_some_iff.mp hTarget
  obtain ⟨i', -, hi⟩ := h.exists_reverse hn
  obtain ⟨j', -, hj⟩ := h.exists_reverse (List.getElem?_eq_getElem (h.target_lt hTarget))
  exact ⟨i', j', hi, hj⟩

theorem exists_edgeFields (i : Nat) (w : Way) :
    ∃ fields, TrackData.edgeFields d i w = some fields := by
  cases hTarget : target d.nodes i w with
  | none => exact ⟨[], edgeFields_none hTarget⟩
  | some j =>
    obtain ⟨i', j', hi, hj⟩ := h.exists_reverses hTarget
    obtain ⟨fields, -, -, hFields, -⟩ := h.edgeFields hTarget hi hj
    exact ⟨fields, hFields⟩

end Description.Sound

/-- A table with the nodes and the edges of the description, and zeros elsewhere. The numbers are
those of the description as far as they are of 32 bits. -/
structure Description.Fills (d : Description) (t : Table) : Prop where
  node : ∀ (i : Nat) (n : Node) (k : Kind), d.nodes[i]? = some n → n.kind = some k →
    (t i).idx = wrap32 i ∧ (t i).owner = -1 ∧ (t i).name = n.name ∧ (t i).type = k.nodeType ∧
      (t i).num = wrap32 (n.num.getD 0) ∧ (t i).reverse = n.reverse
  edge : ∀ i w j i' j', target d.nodes i w = some j → reverseOf d.nodes i = some i' →
    reverseOf d.nodes j = some j' → ∃ e dist, d.data i w = some e ∧ e.dist = some dist ∧
      (t i).edge w.dir = d.edgeEntry i j j' i' dist
  noEdge : ∀ i dir, (∀ w, w.dir = dir → target d.nodes i w = none) → (t i).edge dir = .zero
  outside : ∀ i, d.nodes.length ≤ i → t i = .zero

/-- Two ways out of one node are two edges of it. -/
theorem Description.Sound.target_none (h : d.Sound) (hTarget : target d.nodes i w = some j)
    (hDir : w'.dir = w.dir) (hNe : w' ≠ w) : target d.nodes i w' = none := by
  obtain ⟨n, hn, hWay⟩ := Option.bind_eq_some_iff.mp hTarget
  obtain ⟨k, hComplete⟩ := h.node i n hn
  have hMem : w ∈ k.ways := (hComplete.way w).mp (by simp [hWay])
  have hOther : w' ∉ k.ways := by
    cases k <;> cases w <;> cases w' <;> simp [Kind.ways, Way.dir, dirAhead, dirStraight,
      dirCurved] at hMem hDir hNe ⊢
  rw [target, hn, Option.bind_some]
  rw [← hComplete.way] at hOther
  simpa using hOther

theorem mapM_eq_some {α β : Type} {f : α → Option β} {l : List α} {l' : List β} :
    l.mapM f = some l' ↔ List.Forall₂ (fun a b => f a = some b) l l' := by
  induction l generalizing l' with
  | nil => simp [List.mapM_nil, eq_comm]
  | cons a l ih =>
    rw [List.forall₂_cons_left_iff]
    simp only [List.mapM_cons, Option.bind_eq_bind, Option.bind_eq_some_iff, Option.pure_def,
      Option.some_inj, ih]
    constructor
    · rintro ⟨b, hFirst, bs, hRest, rfl⟩
      exact ⟨b, bs, hFirst, hRest, rfl⟩
    · rintro ⟨b, bs, hFirst, hRest, rfl⟩
      exact ⟨b, hFirst, bs, hRest, rfl⟩

/-- The assignments for a node, which there are, and what they make of it. -/
theorem Description.Sound.exists_fields (h : d.Sound) (i : Nat) :
    ∃ fields, ∀ n, d.nodes[i]? = some n → nodeFields d i n = some fields ∧
      ∃ k i' fa fs fc, n.Complete d.nodes.length k ∧ n.reverse = some i' ∧
        TrackData.edgeFields d i .ahead = some fa ∧ TrackData.edgeFields d i .straight = some fs ∧
        TrackData.edgeFields d i .curved = some fc ∧
        fields.foldl Field.run .zero = entry i n k i' fa fs fc := by
  cases hn : d.nodes[i]? with
  | none => exact ⟨[], nofun⟩
  | some n =>
    obtain ⟨k, hComplete⟩ := h.node i n hn
    obtain ⟨i', -, hReverse⟩ := hComplete.reverse
    obtain ⟨fa, hAhead⟩ := h.exists_edgeFields i .ahead
    obtain ⟨fs, hStraight⟩ := h.exists_edgeFields i .straight
    obtain ⟨fc, hCurved⟩ := h.exists_edgeFields i .curved
    obtain ⟨fields, hFields, hRun⟩ :=
      nodeFields_eq hComplete.kind hReverse hAhead hStraight hCurved
    refine ⟨fields, fun n' hn' => ?_⟩
    obtain rfl := Option.some_inj.mp hn'
    exact ⟨hFields, k, i', fa, fs, fc, hComplete, hReverse, hAhead, hStraight, hCurved, hRun⟩

theorem Description.code_eq {fields : Nat → List Field}
    (h : ∀ i n, d.nodes[i]? = some n → nodeFields d i n = some (fields i)) :
    d.code = some ((List.range d.nodes.length).flatMap fun i => (fields i).map (Stmt.mk i)) := by
  have hNodes : d.nodes.zipIdx.mapM (fun nd => nodeCode d nd.2 nd.1) =
      some (d.nodes.zipIdx.map fun nd => (fields nd.2).map (Stmt.mk nd.2)) := by
    rw [mapM_eq_some, List.forall₂_map_right_iff, List.forall₂_same]
    rintro ⟨n, i⟩ hMem
    rw [nodeCode, h i n (List.mk_mem_zipIdx_iff_getElem?.mp hMem), Option.map_some]
  rw [code, hNodes, Option.map_some, List.flatMap, List.range_eq_range',
    ← List.zipIdx_map_snd 0 d.nodes, List.map_map]
  rfl

theorem runCode_apply (fields : Nat → List Field) (size i : Nat) :
    runCode ((List.range size).flatMap fun i => (fields i).map (Stmt.mk i)) i =
      if i < size then (fields i).foldl Field.run .zero else .zero := by
  rw [runCode, foldl_run_apply, filter_code]
  split_ifs
  · rw [List.map_map]
    exact congrArg (List.foldl Field.run _) (List.map_id _)
  · rfl

/-- There is code for a sound description, and running it fills the table. -/
theorem Description.Sound.code_fills (h : d.Sound) :
    ∃ code, d.code = some code ∧ d.Fills (runCode code) := by
  choose fields hFields using h.exists_fields
  refine ⟨_, code_eq fun i n hn => (hFields i n hn).1, ?_⟩
  have hLt {i : Nat} {n : Node} (hn : d.nodes[i]? = some n) : i < d.nodes.length :=
    (List.getElem?_eq_some_iff.mp hn).1
  constructor
  case node =>
    intro i n k hn hKind
    obtain ⟨-, k', i', fa, fs, fc, hComplete, hReverse, -, -, -, hRun⟩ := hFields i n hn
    obtain rfl := Option.some_inj.mp (hKind.symm.trans hComplete.kind)
    obtain ⟨name, hName⟩ := Option.isSome_iff_exists.mp hComplete.name
    rw [runCode_apply, if_pos (hLt hn), hRun]
    simp [entry, nameText, hName, hReverse]
  case edge =>
    intro i w j i' j' hTarget hi hj
    obtain ⟨fw, e, dist, hEdge, he, hDist, hEntry⟩ := h.edgeFields hTarget hi hj
    obtain ⟨n, hn, -⟩ := Option.bind_eq_some_iff.mp hTarget
    obtain ⟨-, k, i₁, fa, fs, fc, -, -, hAhead, hStraight, hCurved, hRun⟩ := hFields i n hn
    refine ⟨e, dist, he, hDist, ?_⟩
    rw [runCode_apply, if_pos (hLt hn), hRun, ← hEntry, entry]
    -- the other way that uses the same edge of the node leads nowhere
    cases w with
    | ahead =>
      obtain rfl := Option.some_inj.mp (hEdge.symm.trans hAhead)
      have hOther : target d.nodes i .straight = none := h.target_none hTarget rfl (by decide)
      obtain rfl := Option.some_inj.mp ((edgeFields_none hOther).symm.trans hStraight)
      simp [Way.dir, dirAhead, dirCurved]
    | straight =>
      obtain rfl := Option.some_inj.mp (hEdge.symm.trans hStraight)
      have hOther : target d.nodes i .ahead = none := h.target_none hTarget rfl (by decide)
      obtain rfl := Option.some_inj.mp ((edgeFields_none hOther).symm.trans hAhead)
      simp [Way.dir, dirStraight, dirCurved]
    | curved =>
      obtain rfl := Option.some_inj.mp (hEdge.symm.trans hCurved)
      simp [Way.dir]
  case noEdge =>
    intro i dir hNone
    rw [runCode_apply]
    split_ifs with hi
    · obtain ⟨-, k, i₁, fa, fs, fc, -, -, hAhead, hStraight, hCurved, hRun⟩ :=
        hFields i _ (List.getElem?_eq_getElem hi)
      have hEmpty {w : Way} {fw : List EdgeField} (hDir : w.dir = dir)
          (hEdge : TrackData.edgeFields d i w = some fw) : fw = [] :=
        Option.some_inj.mp (hEdge.symm.trans (edgeFields_none (hNone w hDir)))
      rw [hRun, entry]
      match dir with
      | 0 => simp [hEmpty rfl hAhead, hEmpty rfl hStraight, dirCurved]
      | 1 => simp [hEmpty rfl hCurved, dirCurved]
    · rfl
  case outside =>
    intro i hi
    rw [runCode_apply, if_neg (by omega)]

end TrainKernel.TrackData
