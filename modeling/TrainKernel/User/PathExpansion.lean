import TrainKernel.User.ExpandPath
import TrainKernel.User.LoneTrain

/-!
# Expanded paths

What `expandPath` is for, and when it does it. Its padding loop never moves on from the node where
the train is reversed, so that it works only where one node is padding enough.
-/

namespace TrainKernel.User

open Library.Outcome

variable {Node : Type}

/-- The nodes ahead that make up the rest of the padding. A node counts with the edge behind it, as
in the loop. -/
inductive Track.Padding (track : Track Node) : Int → Node → List Node → Prop
  | enough {extra : Int} {n : Node} : padDist ≤ extra → track.Padding extra n []
  | exit {extra : Int} {n : Node} : extra < padDist → track.type n = .exit →
      track.Padding extra n []
  | next {extra : Int} {n m : Node} {pad : List Node} : extra < padDist → track.type n ≠ .exit →
      track.dest n dirAhead = some m → track.Padding (extra + track.dist m dirAhead) m pad →
      track.Padding extra n (m :: pad)

/-- A path is a list of nodes with their flags; behind each flagged node comes its padding. -/
inductive Track.Expansion (track : Track Node) : List (Node × Bool) → List Node → Prop
  | nil : track.Expansion [] []
  | keep {n : Node} {path : List (Node × Bool)} {l : List Node} : track.Expansion path l →
      track.Expansion ((n, false) :: path) (n :: l)
  | pad {n : Node} {pad : List Node} {path : List (Node × Bool)} {l : List Node} :
      track.Padding 0 n pad → track.Expansion path l →
      track.Expansion ((n, true) :: path) (n :: pad ++ l)

/-- The track data has no edge behind an exit. -/
def Track.ExitsBare (track : Track Node) : Prop :=
  ∀ n, track.type n = .exit → track.dest n dirAhead = none ∧ track.dist n dirAhead = 0

/-- The node ahead is padding enough. -/
def Track.RoomAhead (track : Track Node) (n : Node) : Prop :=
  ∃ m, track.dest n dirAhead = some m ∧ padDist ≤ track.dist m dirAhead

def PathBuffer.EntriesFrom (pb : PathBuffer Node) (i : Nat) (path : List (Node × Bool)) : Prop :=
  ∀ j p, path[j]? = some p → pb.tracknodes (i + j) = some p.1 ∧ pb.reverse (i + j) = p.2

structure PathBuffer.HoldsPath (pb : PathBuffer Node) (path : List (Node × Bool)) : Prop where
  length_eq : pb.length = path.length
  entries : pb.EntriesFrom 0 path

/-- The path is expanded within the buffer, whatever is on the stack. -/
def ExpandsPath (track : Track Node) (pb : PathBuffer Node) (path : List (Node × Bool)) : Prop :=
  ∀ onStack, ∃ l pb', expandPath track onStack pb = .ok ((l.length : Int), pb') ∧ pb'.Lists l ∧
    l.length ≤ maxPathLength ∧ (path.map Prod.fst).Sublist l ∧ track.Expansion path l

variable {track : Track Node} {pb clonedpb onStack : PathBuffer Node} {n m : Node}
variable {path : List (Node × Bool)} {done pad l : List Node} {rounds i : Nat} {extra : Int}

theorem Track.Expansion.sublist (h : track.Expansion path l) : (path.map Prod.fst).Sublist l := by
  induction h with
  | nil => exact .slnil
  | keep _ ih => exact ih.cons_cons _
  | pad _ _ ih => exact (ih.trans (List.sublist_append_right _ _)).cons_cons _

theorem Track.Padding.eq_of_far (h : track.Padding 0 n pad) (hDest : track.dest n dirAhead = some m)
    (hFar : padDist ≤ track.dist m dirAhead) (hExits : track.ExitsBare) : pad = [m] := by
  cases h with
  | enough hEnough => exact absurd hEnough (by decide)
  | exit _ hExit =>
    rw [(hExits n hExit).1] at hDest
    cases hDest
  | next _ _ hNext hRest =>
    cases hNext.symm.trans hDest
    rw [Int.zero_add] at hRest
    cases hRest with
    | enough => rfl
    | exit hMore => exact absurd hFar (Int.not_le.mpr hMore)
    | next hMore => exact absurd hFar (Int.not_le.mpr hMore)

/-- Where one node is not enough, another one comes behind it. -/
theorem Track.Padding.of_near (h : track.Padding 0 n pad) (hDest : track.dest n dirAhead = some m)
    (hNear : track.dist m dirAhead < padDist) (hExit : track.type m ≠ .exit)
    (hExits : track.ExitsBare) :
    ∃ next rest, track.dest m dirAhead = some next ∧ pad = m :: next :: rest := by
  cases h with
  | enough hEnough => exact absurd hEnough (by decide)
  | exit _ hBare =>
    rw [(hExits n hBare).1] at hDest
    cases hDest
  | next _ _ hNext hRest =>
    cases hNext.symm.trans hDest
    rw [Int.zero_add] at hRest
    cases hRest with
    | enough hEnough => exact absurd hEnough (Int.not_le.mpr hNear)
    | exit _ hBare => exact absurd hBare hExit
    | next _ _ hAhead => exact ⟨_, _, hAhead, rfl⟩

theorem padLoop_done {node : Option Node} (hEnough : padDist ≤ extra) :
    padLoop track node (rounds + 1) extra pb = .ok pb :=
  if_neg (Int.not_lt.mpr hEnough)

theorem padLoop_next (hDest : track.dest n dirAhead = some m) (hMore : extra < padDist) :
    padLoop track (some n) (rounds + 1) extra pb = (do
      let pb ← putNode pb (some m)
      padLoop track (some n) rounds (extra + track.dist m dirAhead) pb) := by
  rw [padLoop, if_pos hMore, nodeAhead, hDest]
  rfl

/-- The loop reads from the null pointer where there is no node ahead. -/
theorem padLoop_nowhere (hDest : track.dest n dirAhead = none) (hMore : extra < padDist)
    {P : PathBuffer Node → Prop} : Yields P (padLoop track (some n) rounds extra pb) := by
  cases rounds with
  | zero => exact Yields.error
  | succ rounds =>
    rw [padLoop, if_pos hMore, nodeAhead, hDest]
    exact Yields.skip fun _ hNext => Yields.skip fun pb₁ _ => by
      cases hNext
      exact Yields.error

/-- The nodes that are put never become padding enough. -/
theorem padLoop_endless (hDest : track.dest n dirAhead = some m) (hMore : extra < padDist)
    (hZero : track.dist m dirAhead = 0) :
    Yields (fun _ => False) (padLoop track (some n) rounds extra pb) := by
  induction rounds generalizing pb with
  | zero => exact Yields.error
  | succ rounds ih =>
    rw [padLoop_next hDest hMore, hZero, Int.add_zero]
    exact Yields.skip fun pb₁ _ => ih

theorem putNode_last {node : Option Node} :
    Yields (fun pb' => pb'.length = pb.length + 1 ∧ pb'.tracknodes pb.length.toNat = node)
      (putNode pb node) :=
  EndsWell.ite (fun _ => EndsWell.ok ⟨rfl, Function.update_self ..⟩) fun _ => Yields.error

/-- In its second round the loop puts the same node once more. -/
theorem padLoop_again (rounds : Nat) (hDest : track.dest n dirAhead = some m)
    (hNear : track.dist m dirAhead < padDist) (hLists : pb.Lists done) :
    Yields (fun pb' : PathBuffer Node => (done.length + 1 : Nat) < pb'.length ∧
        pb'.tracknodes (done.length + 1) = some m)
      (padLoop track (some n) (rounds + 2) 0 pb) := by
  rw [padLoop_next hDest (by decide)]
  apply putNode_last.bind
  intro pb₁ hFirst
  rw [padLoop_next hDest (by omega)]
  apply putNode_last.bind
  intro pb₂ hSecond
  apply PathBuffer.Grows.padLoop.mono
  intro pb₃ hGrows
  have hLength : pb₁.length = (done.length + 1 : Nat) := by
    rw [hFirst.1, hLists.length_eq]
    rfl
  have hIndex : pb₁.length.toNat = done.length + 1 := by
    rw [hLength]
    rfl
  rw [hIndex] at hSecond
  constructor
  · have hMore := hGrows.length_le
    omega
  · rw [hGrows.tracknodes _ (by omega)]
    exact hSecond.2

theorem expandNode_keep (hNode : clonedpb.tracknodes i = some n)
    (hKept : clonedpb.reverse i = false) (hLists : pb.Lists done)
    (hRoom : done.length < maxPathLength) :
    ∃ pb', expandNode track clonedpb i pb = .ok pb' ∧ pb'.Lists (done ++ [n]) := by
  obtain ⟨pb₁, hPut, hLists₁⟩ := hLists.putNode hRoom n
  refine ⟨pb₁, ?_, hLists₁⟩
  rw [expandNode, hNode, hPut, hKept]
  rfl

theorem PathBuffer.Lists.flagNext (h : pb.Lists l) (hRoom : l.length < maxPathLength) :
    ∃ pb', flagNext pb = .ok pb' ∧ pb'.Lists l := by
  have hLess : pb.length < maxPathLength := by
    rw [h.length_eq]
    exact Int.ofNat_lt.mpr hRoom
  exact ⟨_, if_pos hLess, h.length_eq, h.tracknodes⟩

theorem expandNode_pad (hNode : clonedpb.tracknodes i = some n)
    (hFlagged : clonedpb.reverse i = true) (hDest : track.dest n dirAhead = some m)
    (hFar : padDist ≤ track.dist m dirAhead) (hLists : pb.Lists done)
    (hRoom : done.length + 2 ≤ maxPathLength) :
    ∃ pb', expandNode track clonedpb i pb = .ok pb' ∧ pb'.Lists (done ++ [n, m]) := by
  obtain ⟨pb₁, hPut₁, hLists₁⟩ := hLists.putNode (by omega) n
  have hRoom₁ : (done ++ [n]).length < maxPathLength := by
    rw [List.length_append]
    exact hRoom
  obtain ⟨pb₂, hFlag, hLists₂⟩ := hLists₁.flagNext hRoom₁
  obtain ⟨pb₃, hPut₃, hLists₃⟩ := hLists₂.putNode hRoom₁ m
  refine ⟨pb₃, ?_, ?_⟩
  · have hPad : padLoop track (some n) (maxPathLength + 1) 0 pb₂ = .ok pb₃ := by
      rw [padLoop_next hDest (by decide), hPut₃]
      exact padLoop_done (by omega)
    rw [expandNode, hNode, hPut₁, hFlagged]
    change (flagNext pb₁ >>= padLoop track (some n) (maxPathLength + 1) 0) = .ok pb₃
    rw [hFlag]
    exact hPad
  · rw [List.append_assoc] at hLists₃
    exact hLists₃

/-- What is known of a buffer behind a flagged node whose padding is done. -/
theorem expandNode_padded (hNode : clonedpb.tracknodes i = some n)
    (hFlagged : clonedpb.reverse i = true) (hLists : pb.Lists done)
    (hRoom : done.length < maxPathLength) :
    Yields (fun pb' : PathBuffer Node => ∃ m, track.dest n dirAhead = some m ∧
        (padDist ≤ track.dist m dirAhead ∨
          track.dist m dirAhead ≠ 0 ∧ track.dist m dirAhead < padDist ∧
          (done.length + 2 : Nat) < pb'.length ∧ pb'.tracknodes (done.length + 2) = some m))
      (expandNode track clonedpb i pb) := by
  obtain ⟨pb₁, hPut, hLists₁⟩ := hLists.putNode hRoom n
  rw [expandNode, hNode, hPut, hFlagged]
  change Yields _ (flagNext pb₁ >>= padLoop track (some n) (maxPathLength + 1) 0)
  have hFlagNext : Yields (fun pb₂ => pb₂.Lists (done ++ [n])) (flagNext pb₁) :=
    EndsWell.ite (fun _ => EndsWell.ok ⟨hLists₁.length_eq, hLists₁.tracknodes⟩) fun _ =>
      Yields.error
  apply hFlagNext.bind
  intro pb₂ hLists₂
  cases hDest : track.dest n dirAhead with
  | none => exact padLoop_nowhere hDest (by decide)
  | some m =>
    rcases le_or_gt padDist (track.dist m dirAhead) with hFar | hNear
    · exact Yields.of_eq fun _ _ => ⟨m, rfl, Or.inl hFar⟩
    · rcases eq_or_ne (track.dist m dirAhead) 0 with hZero | hNe
      · exact (padLoop_endless hDest (by decide) hZero).mono fun _ h => h.elim
      · have hAgain := padLoop_again (maxPathLength - 1) hDest hNear hLists₂
        rw [List.length_append] at hAgain
        exact hAgain.mono fun pb' h => ⟨m, rfl, Or.inr ⟨hNe, hNear, h⟩⟩

/-! ## The loop over the path -/

theorem PathBuffer.EntriesFrom.head {p : Node × Bool}
    (h : clonedpb.EntriesFrom i (p :: path)) :
    clonedpb.tracknodes i = some p.1 ∧ clonedpb.reverse i = p.2 :=
  h 0 p rfl

theorem PathBuffer.EntriesFrom.tail {p : Node × Bool}
    (h : clonedpb.EntriesFrom i (p :: path)) : clonedpb.EntriesFrom (i + 1) path := by
  intro j p' hMem
  have hEntry := h (j + 1) p' hMem
  rw [← Nat.add_assoc, Nat.add_right_comm] at hEntry
  exact hEntry

/-- Where one node is not enough, what the loop writes is no expansion. -/
theorem expandNode_lists [Fintype Node] (hTrack : track.WellFormed) (hExits : track.ExitsBare)
    {pb' pb'' : PathBuffer Node} {rest : List Node} (hNode : clonedpb.tracknodes i = some n)
    (hFlagged : clonedpb.reverse i = true) (hPad : track.Padding 0 n pad)
    (hLists : pb.Lists done) (hRoom : done.length < maxPathLength)
    (hExpand : expandNode track clonedpb i pb = .ok pb') (hGrows : pb'.Grows pb'')
    (hLists'' : pb''.Lists (done ++ (n :: pad ++ rest))) : track.RoomAhead n := by
  obtain ⟨m, hDest, hFar | ⟨hNe, hNear, hLength, hAgain⟩⟩ :=
    (expandNode_padded hNode hFlagged hLists hRoom).of_ok hExpand
  · exact ⟨m, hDest, hFar⟩
  · have hExit : track.type m ≠ .exit := fun hBare => hNe (hExits m hBare).2
    obtain ⟨next, after, hAhead, rfl⟩ := hPad.of_near hDest hNear hExit hExits
    have hThird : (done ++ (n :: m :: next :: after ++ rest))[done.length + 2]? = some next := by
      rw [List.getElem?_append_right (Nat.le_add_right ..), Nat.add_sub_cancel_left]
      rfl
    have hSame := hLists''.tracknodes _ _ hThird
    rw [hGrows.tracknodes _ hLength, hAgain] at hSame
    exact absurd (Option.some.inj hSame).symm (hTrack.dest_ne m dirAhead next hAhead).1

theorem roomAhead_cons_iff {flag : Bool} :
    (∀ n', (n', true) ∈ (n, flag) :: path → track.RoomAhead n') ↔
      (flag = true → track.RoomAhead n) ∧ ∀ n', (n', true) ∈ path → track.RoomAhead n' := by
  constructor
  · intro h
    refine ⟨?_, fun n' hMem => h n' (List.mem_cons_of_mem _ hMem)⟩
    rintro rfl
    exact h n List.mem_cons_self
  · rintro ⟨hFirst, hRest⟩ n' hMem
    cases hMem with
    | head => exact hFirst rfl
    | tail _ hMem => exact hRest n' hMem

theorem expandLoop_cons {p : Node × Bool} {pb' : PathBuffer Node}
    (hExpand : expandNode track clonedpb i pb = .ok pb') :
    expandLoop track clonedpb (p :: path).length i pb =
      expandLoop track clonedpb path.length (i + 1) pb' := by
  rw [List.length_cons, expandLoop, hExpand]
  rfl

theorem expandLoop_iff [Fintype Node] (hTrack : track.WellFormed) (hExits : track.ExitsBare)
    (hExpansion : track.Expansion path l) (hEntries : clonedpb.EntriesFrom i path)
    (hLists : pb.Lists done) (hFits : (done ++ l).length ≤ maxPathLength) :
    (∃ pb', expandLoop track clonedpb path.length i pb = .ok pb' ∧ pb'.Lists (done ++ l)) ↔
      ∀ n, (n, true) ∈ path → track.RoomAhead n := by
  induction hExpansion generalizing i pb done with
  | nil =>
    rw [List.append_nil]
    exact ⟨fun _ _ hMem => absurd hMem List.not_mem_nil, fun _ => ⟨pb, rfl, hLists⟩⟩
  | @keep n path l _ ih =>
    obtain ⟨hNode, hKept⟩ := hEntries.head
    rw [List.append_cons] at hFits ⊢
    have hRoom : done.length < maxPathLength := by
      simp only [List.length_append, List.length_singleton] at hFits
      omega
    obtain ⟨pb₁, hExpand, hLists₁⟩ :
        ∃ pb₁, expandNode track clonedpb i pb = .ok pb₁ ∧ pb₁.Lists (done ++ [n]) :=
      expandNode_keep hNode hKept hLists hRoom
    rw [expandLoop_cons hExpand, roomAhead_cons_iff]
    exact (ih hEntries.tail hLists₁ hFits).trans (and_iff_right nofun).symm
  | @pad n pad path l hPad _ ih =>
    obtain ⟨hNode, hFlagged⟩ := hEntries.head
    have hRoom : done.length + (1 + pad.length) ≤ maxPathLength := by
      simp only [List.length_append, List.length_cons] at hFits
      omega
    have hFirst : (∃ pb', expandLoop track clonedpb ((n, true) :: path).length i pb = .ok pb' ∧
        pb'.Lists (done ++ (n :: pad ++ l))) → track.RoomAhead n := by
      rintro ⟨pb'', hOk, hLists''⟩
      obtain ⟨pb', hExpand, hRest⟩ := exists_of_bind_eq_ok hOk
      exact expandNode_lists hTrack hExits hNode hFlagged hPad hLists (by omega) hExpand
        (PathBuffer.Grows.expandLoop.of_ok hRest) hLists''
    rw [roomAhead_cons_iff, imp_iff_right (rfl : true = true), ← and_iff_right_of_imp hFirst]
    refine and_congr_right fun hAhead => ?_
    obtain ⟨m, hDest, hFar⟩ := hAhead
    obtain rfl := hPad.eq_of_far hDest hFar hExits
    obtain ⟨pb₁, hExpand, hLists₁⟩ := expandNode_pad hNode hFlagged hDest hFar hLists hRoom
    rw [← List.append_assoc] at hFits ⊢
    rw [expandLoop_cons hExpand]
    exact ih hEntries.tail hLists₁ hFits

theorem expandNode_puts (hLength : 0 ≤ pb.length) :
    Yields (fun pb' : PathBuffer Node => 0 ≤ pb'.length ∧
        ∃ k : Nat, k < pb'.length ∧ pb'.tracknodes k = clonedpb.tracknodes i)
      (expandNode track clonedpb i pb) := by
  apply putNode_last.bind
  intro pb₁ hPut
  have hPadding : Yields pb₁.Grows (if clonedpb.reverse i then do
      let pb ← flagNext pb₁
      padLoop track (clonedpb.tracknodes i) (maxPathLength + 1) 0 pb
    else return pb₁) := by
    refine EndsWell.ite (fun _ => ?_) fun _ => EndsWell.pure (.refl pb₁)
    exact PathBuffer.Grows.flagNext.bind fun pb₂ hFlag =>
      PathBuffer.Grows.padLoop.mono fun pb₃ hPad => hFlag.trans hPad
  apply hPadding.mono
  intro pb' hGrows
  have hMore := hGrows.length_le
  refine ⟨by omega, pb.length.toNat, by omega, ?_⟩
  rw [hGrows.tracknodes _ (by omega)]
  exact hPut.2

/-- Every node that is read is put somewhere. -/
theorem expandLoop_puts (hLength : 0 ≤ pb.length) :
    Yields (fun pb' : PathBuffer Node => ∀ j, i ≤ j → j < i + rounds →
        ∃ k : Nat, k < pb'.length ∧ pb'.tracknodes k = clonedpb.tracknodes j)
      (expandLoop track clonedpb rounds i pb) := by
  induction rounds generalizing i pb with
  | zero => exact EndsWell.ok fun j hi hj => absurd hj (Nat.not_lt.mpr hi)
  | succ rounds ih =>
    apply (expandNode_puts hLength).bind
    intro pb₁ hPut
    apply ((ih hPut.1).and PathBuffer.Grows.expandLoop).mono
    intro pb' hRest j hi hj
    obtain ⟨hLater, hGrows⟩ := hRest
    rcases Nat.eq_or_lt_of_le hi with rfl | hNext
    · obtain ⟨k, hk, hSame⟩ := hPut.2
      exact ⟨k, hk.trans_le hGrows.length_le, (hGrows.tracknodes k hk).trans hSame⟩
    · exact hLater j hNext (by omega)

theorem expandPath_eq_ok_iff {pb' : PathBuffer Node} (hLists : pb'.Lists l) :
    expandPath track onStack pb = .ok ((l.length : Int), pb') ↔
      expandLoop track (pbcopy onStack pb) pb.length.toNat 0 (pbinit pb) = .ok pb' := by
  rw [expandPath]
  change (expandLoop track (pbcopy onStack pb) pb.length.toNat 0 (pbinit pb) >>= fun pb =>
    pure (pb.length, pb)) = _ ↔ _
  cases expandLoop track (pbcopy onStack pb) pb.length.toNat 0 (pbinit pb) with
  | error fault => exact iff_of_false nofun nofun
  | ok pb₁ =>
    constructor
    · intro hOk
      cases Prod.mk.inj (Except.ok.inj hOk) with
      | intro _ hSame => exact congrArg Except.ok hSame
    · rintro ⟨⟩
      exact congrArg (fun length => Except.ok (length, pb')) hLists.length_eq

theorem pbinit_lists (pb : PathBuffer Node) : (pbinit pb).Lists [] := ⟨rfl, nofun⟩

/-- A quarter of the bytes is a quarter of the entries. -/
theorem PathBuffer.HoldsPath.pbcopy (h : pb.HoldsPath path)
    (hShort : path.length ≤ maxPathLength / 4) (onStack : PathBuffer Node) :
    (pbcopy onStack pb).EntriesFrom 0 path := by
  intro j p hMem
  have hj : 0 + j < maxPathLength / 4 := by
    have hLess := (List.getElem?_eq_some_iff.mp hMem).1
    omega
  obtain ⟨hNode, hFlag⟩ := h.entries j p hMem
  exact ⟨(if_pos hj).trans hNode, (if_pos hj).trans hFlag⟩

/-- The first entry that is not copied ends up in the path. -/
theorem ExpandsPath.length_le (h : ExpandsPath track pb path) (hHolds : pb.HoldsPath path) :
    path.length ≤ maxPathLength / 4 := by
  by_contra hLong
  let garbage : PathBuffer Node := ⟨0, 0, fun _ => none, fun _ => false⟩
  obtain ⟨l, pb', hOk, hLists, -⟩ := h garbage
  rw [expandPath_eq_ok_iff hLists] at hOk
  have hRead : maxPathLength / 4 < 0 + pb.length.toNat := by
    rw [hHolds.length_eq, Int.toNat_natCast, Nat.zero_add]
    exact Nat.lt_of_not_le hLong
  obtain ⟨k, hk, hSame⟩ :=
    (expandLoop_puts le_rfl).of_ok hOk (maxPathLength / 4) (Nat.zero_le _) hRead
  rw [hLists.length_eq, Nat.cast_lt] at hk
  rw [hLists.tracknodes k l[k] (List.getElem?_eq_getElem hk)] at hSame
  exact absurd hSame.symm nofun

theorem PathBuffer.HoldsPath.expandPath_iff [Fintype Node] (hHolds : pb.HoldsPath path)
    (hTrack : track.WellFormed) (hExits : track.ExitsBare)
    (hShort : path.length ≤ maxPathLength / 4) (hExpansion : track.Expansion path l)
    (hFits : l.length ≤ maxPathLength) :
    (∃ pb', expandPath track onStack pb = .ok ((l.length : Int), pb') ∧ pb'.Lists l) ↔
      ∀ n, (n, true) ∈ path → track.RoomAhead n := by
  have hRounds : pb.length.toNat = path.length := by
    rw [hHolds.length_eq, Int.toNat_natCast]
  rw [← expandLoop_iff hTrack hExits hExpansion (hHolds.pbcopy hShort onStack) (pbinit_lists pb)
    hFits, ← hRounds]
  exact exists_congr fun pb' => and_congr_left expandPath_eq_ok_iff

/-- `expandPath` expands the paths that take at most a quarter of the buffer and have, ahead of
each reversal, a node whose edge is as long as the padding. -/
theorem expandPath_expands_iff [Fintype Node] (hTrack : track.WellFormed)
    (hExits : track.ExitsBare) (hHolds : pb.HoldsPath path) (hExpansion : track.Expansion path l)
    (hFits : l.length ≤ maxPathLength) :
    ExpandsPath track pb path ↔
      path.length ≤ maxPathLength / 4 ∧ ∀ n, (n, true) ∈ path → track.RoomAhead n := by
  constructor
  · intro h
    have hShort := h.length_le hHolds
    obtain ⟨l, pb', hOk, hLists, hFits, -, hExpansion⟩ := h pb
    refine ⟨hShort, ?_⟩
    exact (hHolds.expandPath_iff hTrack hExits hShort hExpansion hFits).mp ⟨pb', hOk, hLists⟩
  · rintro ⟨hShort, hAhead⟩ onStack
    obtain ⟨pb', hOk, hLists⟩ :=
      (hHolds.expandPath_iff hTrack hExits hShort hExpansion hFits).mpr hAhead
    exact ⟨l, pb', hOk, hLists, hFits, hExpansion.sublist, hExpansion⟩

/-- The train is reversed behind a node and goes on to the one before it. -/
def thereAndBack : List ((Bool × Bool) × Bool) :=
  [((false, false), true), ((true, true), false)]

def thereAndBackBuffer : PathBuffer (Bool × Bool) where
  trainNum := 0
  length := 2
  tracknodes i := thereAndBack[i]?.map Prod.fst
  reverse i := decide (i = 0)

theorem thereAndBackBuffer_holds : thereAndBackBuffer.HoldsPath thereAndBack where
  length_eq := rfl
  entries
    | 0, _, rfl => ⟨rfl, rfl⟩
    | 1, _, rfl => ⟨rfl, rfl⟩

def longCircle : Track (Bool × Bool) := { circle with dist := fun _ _ => 500 }

theorem longCircle_wellFormed : longCircle.WellFormed where
  idx_injective := circle_wellFormed.idx_injective
  reverse_involutive := circle_wellFormed.reverse_involutive
  reverse_ne := circle_wellFormed.reverse_ne
  dest_isSome := circle_wellFormed.dest_isSome
  dest_ne := circle_wellFormed.dest_ne
  dist_nonneg _ _ := (by decide : (0 : Int) ≤ 500)
  card_le := circle_wellFormed.card_le

theorem longCircle_expansion :
    longCircle.Expansion thereAndBack [(false, false), (true, false), (true, true)] :=
  .pad (.next (by decide) (by decide) rfl (.enough (by decide))) (.keep .nil)

theorem expands_longCircle : ExpandsPath longCircle thereAndBackBuffer thereAndBack := by
  refine (expandPath_expands_iff longCircle_wellFormed nofun thereAndBackBuffer_holds
    longCircle_expansion (by decide)).mpr ⟨by decide, fun n hMem => ?_⟩
  obtain rfl : n = (false, false) := by
    simpa [thereAndBack] using hMem
  exact ⟨(true, false), rfl, by decide⟩

theorem circle_next {extra : Int} {n : Bool × Bool} {pad : List (Bool × Bool)}
    (hMore : extra < padDist) (hRest : circle.Padding (extra + 100) (!n.1, n.2) pad) :
    circle.Padding extra n ((!n.1, n.2) :: pad) :=
  .next hMore (by decide : NodeType.sensor ≠ .exit) rfl hRest

/-- The padding is twice around the circle, and the loop puts the first node of it four times. -/
theorem circle_not_expanded : circle.WellFormed ∧ circle.ExitsBare ∧
    circle.type (false, false) ≠ .branch ∧ thereAndBackBuffer.HoldsPath thereAndBack ∧
    circle.Expansion thereAndBack
      ([(false, false), (true, false), (false, false), (true, false), (false, false)] ++
        [(true, true)]) ∧
    ¬ExpandsPath circle thereAndBackBuffer thereAndBack := by
  have hPadding : circle.Padding 0 (false, false)
      [(true, false), (false, false), (true, false), (false, false)] :=
    circle_next (by decide) (circle_next (by decide) (circle_next (by decide)
      (circle_next (by decide) (.enough (by decide)))))
  refine ⟨circle_wellFormed, nofun, nofun, thereAndBackBuffer_holds, .pad hPadding (.keep .nil),
    fun h => ?_⟩
  obtain ⟨l, pb', hOk, hLists, hFits, -, hExpansion⟩ := h thereAndBackBuffer
  obtain ⟨m, -, hFar⟩ := (thereAndBackBuffer_holds.expandPath_iff circle_wellFormed nofun
    (by decide) hExpansion hFits).mp ⟨pb', hOk, hLists⟩ (false, false) List.mem_cons_self
  exact absurd hFar (by decide : ¬padDist ≤ 100)

example (onStack : PathBuffer (Bool × Bool)) :
    (expandPath circle onStack thereAndBackBuffer).map
        (fun result => (result.1, (List.range 6).map result.2.tracknodes)) =
      .ok (6, [some (false, false), some (true, false), some (true, false), some (true, false),
        some (true, false), some (true, true)]) :=
  rfl

end TrainKernel.User
