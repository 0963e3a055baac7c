import TrainKernel.User.Engineer
import TrainKernel.User.PathSplitting
import TrainKernel.User.Routes

/-!
# Turnouts for a route

The enstructions of a route carry a turnout operation for each branch of the route. When they have
been carried out, the track leads along the route.
-/

namespace TrainKernel.User

open Function

variable {Node : Type}

/-- A path without a reversal. -/
structure PathBuffer.Holds (pb : PathBuffer Node) (nodes : List Node) : Prop where
  length : pb.length = nodes.length
  tracknodes : ∀ i < nodes.length, pb.tracknodes i = nodes[i]?
  reverse : ∀ i < nodes.length, pb.reverse i = false

/-- Each node is left by one of its edges. -/
def Track.FollowsEdges (track : Track Node) (nodes : List Node) : Prop :=
  nodes.IsChain fun n m => ∃ d ∈ track.edges n, track.dest n d = some m

/-- A train that is at a node of the list goes to the next. -/
def Track.LeadsAlong (track : Track Node) (trackBitmap : TrackBitmap) (nodes : List Node) : Prop :=
  nodes.IsChain fun n m => getNextNode track trackBitmap n = .ok (some m)

/-- What the packing of a turnout operation into a number relies on. -/
structure Track.Switchable (track : Track Node) : Prop where
  idx_pos : ∀ n, track.type n = .branch → 0 < track.idx n
  isTurnout : ∀ n, track.type n = .branch → IsTurnout (track.num n)
  num_injective : ∀ n m, track.type n = .branch → track.type m = .branch →
    track.num n = track.num m → n = m
  dest_ne : ∀ n, track.type n = .branch → track.dest n dirStraight ≠ track.dest n dirCurved

/-- Of the branches only those of the list are set. -/
def Track.SetsOnly (track : Track Node) (nodes : List Node)
    (trackBitmap trackBitmap' : TrackBitmap) : Prop :=
  ∀ n, track.type n = .branch → n ∉ nodes →
    turnoutIsCurved trackBitmap' (track.num n) = turnoutIsCurved trackBitmap (track.num n)

section Branches

variable {track : Track Node} {trackBitmap trackBitmap' : TrackBitmap} {n m : Node}
variable {nodes nodes' : List Node}

theorem Track.SetsOnly.trans {trackBitmap'' : TrackBitmap}
    (h : track.SetsOnly nodes trackBitmap trackBitmap')
    (h' : track.SetsOnly nodes' trackBitmap' trackBitmap'') :
    track.SetsOnly (nodes ++ nodes') trackBitmap trackBitmap'' := by
  intro n hBranch hOff
  rw [List.mem_append, not_or] at hOff
  rw [h' n hBranch hOff.2, h n hBranch hOff.1]

theorem getNextNode_branch (hBranch : track.type n = .branch) {curved : Bool}
    (hCurved : turnoutIsCurved trackBitmap (track.num n) = some curved) :
    getNextNode track trackBitmap n =
      .ok (track.dest n (if curved then dirCurved else dirStraight)) := by
  rw [getNextNode, getNextEdge, hBranch, hCurved]
  rfl

theorem getNextNode_ahead (hBranch : track.type n ≠ .branch) (hExit : track.type n ≠ .exit) :
    getNextNode track trackBitmap n = .ok (track.dest n dirAhead) := by
  rw [getNextNode, getNextEdge]
  split
  · contradiction
  · contradiction
  · rfl

/-- The turnout of a branch alone decides where the track leads. -/
theorem Track.SetsOnly.getNextNode_eq (h : track.SetsOnly nodes trackBitmap trackBitmap')
    (hOff : n ∉ nodes) :
    getNextNode track trackBitmap' n = getNextNode track trackBitmap n := by
  by_cases hBranch : track.type n = .branch
  · rw [getNextNode, getNextNode, getNextEdge, getNextEdge, hBranch]
    dsimp only
    rw [h n hBranch hOff]
  · rw [getNextNode, getNextNode, getNextEdge, getNextEdge]
    split <;> first | contradiction | rfl

end Branches

section Throwing

variable {world : EngineerWorld Node} {n m : Node}

theorem throwTurnout_branch (hSwitch : world.track.Switchable)
    (hIndex : ∀ n, world.gTrack (world.track.idx n) = n) (hBranch : world.track.type n = .branch)
    (curved : Bool) (t : EngineerTurn Node) :
    ∃ t', throwTurnout world t (world.track.idx n * 2 + if curved then 1 else 0) = .ok t' ∧
      turnoutIsCurved t'.trackBitmap (world.track.num n) = some curved ∧
      world.track.SetsOnly [n] t.trackBitmap t'.trackBitmap := by
  obtain ⟨trackBitmap, hSet, hCurved, hOther⟩ :=
    turnoutIsCurved_setBitmap (hSwitch.isTurnout n hBranch) curved t.trackBitmap
  have hPos := hSwitch.idx_pos n hBranch
  have hTurnop : world.track.idx n * 2 + (if curved then 1 else 0) ≠ 0 := by
    split_ifs <;> omega
  have hNode : turnopGetTracknodeIndex (world.track.idx n * 2 + if curved then 1 else 0) =
      world.track.idx n := by
    rw [turnopGetTracknodeIndex]
    split_ifs <;> omega
  have hCurve : turnopGetCurve (world.track.idx n * 2 + if curved then 1 else 0) = curved := by
    rw [turnopGetCurve]
    cases curved <;> simp
  refine ⟨{ t.send (.switch (world.track.num n) (if curved then 'c' else 's')) with
    trackBitmap := trackBitmap }, ?_, hCurved, ?_⟩
  · rw [throwTurnout, if_pos hTurnop, hNode, hIndex, hCurve, setTurnout, hSet]
    rfl
  · intro m hBranchM hOff
    apply hOther
    intro hSame
    exact hOff (List.mem_singleton.mpr (hSwitch.num_injective m n hBranchM hBranch hSame))

variable [DecidableEq Node]

/-- The turnout operation for a step of a route makes the track lead along it. -/
theorem throwTurnout_lookahead (hSwitch : world.track.Switchable)
    (hIndex : ∀ n, world.gTrack (world.track.idx n) = n)
    (hEdge : ∃ d ∈ world.track.edges n, world.track.dest n d = some m) (t : EngineerTurn Node) :
    ∃ t', throwTurnout world t (lookahead world.track (some n) (some m)) = .ok t' ∧
      getNextNode world.track t'.trackBitmap n = .ok (some m) ∧
      world.track.SetsOnly [n] t.trackBitmap t'.trackBitmap := by
  obtain ⟨d, hOut, hDest⟩ := hEdge
  by_cases hBranch : world.track.type n = .branch
  · have hTurnop : ∃ curved : Bool,
        world.track.dest n (if curved then dirCurved else dirStraight) = some m ∧
        lookahead world.track (some n) (some m) =
          world.track.idx n * 2 + if curved then 1 else 0 := by
      rw [Track.edges_branch hBranch, List.mem_cons, List.mem_singleton] at hOut
      have hApart := hSwitch.dest_ne n hBranch
      rw [lookahead, if_neg (not_not_intro hBranch)]
      obtain rfl | rfl := hOut
      · refine ⟨false, hDest, ?_⟩
        rw [if_pos hDest, if_neg Bool.false_ne_true, add_zero]
      · refine ⟨true, hDest, ?_⟩
        rw [if_neg fun hStraight => hApart (hStraight.trans hDest.symm), if_pos hDest, if_pos rfl]
    obtain ⟨curved, hWay, hTurnop⟩ := hTurnop
    obtain ⟨t', hThrow, hCurved, hOnly⟩ := throwTurnout_branch hSwitch hIndex hBranch curved t
    refine ⟨t', hTurnop ▸ hThrow, ?_, hOnly⟩
    rw [getNextNode_branch hBranch hCurved, hWay]
  · have hNothing : lookahead world.track (some n) (some m) = 0 := by
      rw [lookahead, if_pos hBranch]
    have hExit : world.track.type n ≠ .exit := by
      intro hExit
      rw [Track.edges, hExit] at hOut
      exact absurd hOut List.not_mem_nil
    rw [Track.edges_ahead hExit hBranch, List.mem_singleton] at hOut
    subst hOut
    refine ⟨t, ?_, ?_, fun m hBranchM hOff => rfl⟩
    · rw [hNothing]
      rfl
    · rw [getNextNode_ahead hBranch hExit, hDest]

/-- From its entry `i` on, the enstruction has these nodes with their turnout operations. -/
def Enstruction.CarriesFrom (track : Track Node) (ent : Enstruction Node) (i : Nat)
    (nodes : List Node) : Prop :=
  ∀ j < nodes.length, ent.tracknodes (i + j) = nodes[j]? ∧
    ent.turnops (i + j) = lookahead track nodes[j]? nodes[j + 1]?

variable {ent : Enstruction Node} {nodes : List Node} {i : Nat}

theorem Enstruction.CarriesFrom.tail {track : Track Node}
    (h : ent.CarriesFrom track i (n :: nodes)) : ent.CarriesFrom track (i + 1) nodes := by
  intro j hj
  have hNext := h (j + 1) (Nat.succ_lt_succ hj)
  rw [Nat.add_right_comm]
  exact hNext

theorem throwTurnouts_leadsAlong (hSwitch : world.track.Switchable)
    (hIndex : ∀ n, world.gTrack (world.track.idx n) = n) (hEdges : world.track.FollowsEdges nodes)
    (hNodup : nodes.Nodup) (hCarries : ent.CarriesFrom world.track i nodes)
    (hLength : i + nodes.length ≤ maxPathLength) (t : EngineerTurn Node) :
    ∃ t', throwTurnouts world ent nodes.length i t = .ok t' ∧
      world.track.LeadsAlong t'.trackBitmap nodes ∧
      world.track.SetsOnly nodes.dropLast t.trackBitmap t'.trackBitmap := by
  induction nodes generalizing i t with
  | nil => exact ⟨t, rfl, .nil, fun n hBranch hOff => rfl⟩
  | cons n rest ih =>
    rw [List.length_cons] at hLength
    obtain ⟨hNode, hTurnop⟩ := hCarries 0 (Nat.succ_pos _)
    obtain ⟨hOff, hNodup⟩ := List.nodup_cons.mp hNodup
    have hRound (t : EngineerTurn Node) : throwTurnouts world ent (n :: rest).length i t =
        throwTurnout world t (lookahead world.track (some n) rest[0]?) >>=
          throwTurnouts world ent rest.length (i + 1) := by
      rw [List.length_cons, throwTurnouts, if_neg (by omega)]
      rw [Nat.add_zero] at hNode hTurnop
      rw [hNode, hTurnop]
      rfl
    cases rest with
    | nil => exact ⟨t, hRound t, .singleton n, fun m hBranch hOff => rfl⟩
    | cons m rest =>
      obtain ⟨hEdge, hEdges⟩ := List.isChain_cons_cons.mp hEdges
      obtain ⟨t₁, hThrow, hNext, hOnly⟩ := throwTurnout_lookahead hSwitch hIndex hEdge t
      obtain ⟨t', hRest, hLeads, hOthers⟩ := ih hEdges hNodup hCarries.tail (by omega) t₁
      refine ⟨t', ?_, ?_, ?_⟩
      · rw [hRound]
        exact (congrArg (· >>= _) hThrow).trans hRest
      · -- what is set later on the route does not touch this branch
        have hAway : n ∉ (m :: rest).dropLast := fun hMem => hOff (List.mem_of_mem_dropLast hMem)
        exact List.isChain_cons_cons.mpr ⟨(hOthers.getNextNode_eq hAway).trans hNext, hLeads⟩
      · rw [List.dropLast_cons_cons]
        exact hOnly.trans hOthers

end Throwing

section Book

variable [DecidableEq Node] {track : Track Node} {pb : PathBuffer Node} {book : Ebook Node}
variable {nodes : List Node} {k : Nat}

/-- The book has one enstruction, with the first `k` nodes of the route. -/
structure Ebook.Begins (track : Track Node) (book : Ebook Node) (nodes : List Node)
    (k : Nat) : Prop where
  length_eq : book.length = 1
  length_enstruct : (book.enstructs 0).length = k
  entries : ∀ j < k, (book.enstructs 0).tracknodes j = nodes[j]? ∧
    (book.enstructs 0).turnops j = lookahead track nodes[j]? nodes[j + 1]?

theorem lookahead_none (n : Option Node) : lookahead track n none = 0 := by
  cases n with
  | some n => rfl
  | none => rfl

omit [DecidableEq Node] in
theorem PathBuffer.Holds.not_turnsAt (h : pb.Holds nodes) {i : Nat} (hi : i < nodes.length) :
    pb.turnsAt i = false := by
  rw [PathBuffer.turnsAt, h.reverse i hi]
  exact decide_eq_false fun hAll => Bool.false_ne_true hAll.2.2

theorem PathBuffer.Holds.entry_eq (h : pb.Holds nodes) {i : Nat} (hi : i < nodes.length) :
    pb.entry track i = (nodes[i]?, lookahead track nodes[i]? nodes[i + 1]?) := by
  have hCount : pb.length.toNat = nodes.length := by
    rw [h.length, Int.toNat_natCast]
  rw [PathBuffer.entry, hCount, h.tracknodes i hi]
  by_cases hNext : i + 1 < nodes.length
  · rw [if_pos hNext, h.tracknodes (i + 1) hNext]
  · rw [if_neg hNext, List.getElem?_eq_none (not_lt.mp hNext), lookahead_none]

/-- A path without a reversal makes one enstruction, that carries all of it. -/
theorem makeEbook_begins (hPb : pb.Holds nodes) (hShort : 2 ≤ nodes.length)
    (hLength : nodes.length ≤ maxPathLength) (book : Ebook Node) :
    ∃ count book', makeEbook track pb book = .ok (count, book') ∧
      book'.Begins track nodes nodes.length ∧
      (book'.enstructs 0).togo.node = nodes[nodes.length - 1]? := by
  have hCount : pb.length.toNat = nodes.length := by
    rw [hPb.length, Int.toNat_natCast]
  have hNoTurn : (List.range pb.length.toNat).filter pb.turnsAt = [] := by
    rw [List.filter_eq_nil_iff, hCount]
    intro i hi
    rw [hPb.not_turnsAt (List.mem_range.mp hi)]
    exact Bool.false_ne_true
  have hFew : ((List.range pb.length.toNat).filter pb.turnsAt).length < maxEbookLength := by
    rw [hNoTurn]
    decide
  obtain ⟨book', pages, hBook, hShows, hSplits, hTogo⟩ :
      ∃ (book' : Ebook Node) (pages : List (Page Node)),
        makeEbook track pb book = .ok (pages.length, book') ∧ _ :=
    makeEbook_splits (by rw [hPb.length]; omega) (by rw [hPb.length]; omega) hFew book
  have hOne := hSplits.length_pages
  rw [hNoTurn] at hOne
  obtain ⟨page, rfl⟩ := List.length_eq_one_iff.mp hOne
  have hPage := hShows.enstructs 0 page rfl
  have hEntries := hSplits.entries
  rw [List.flatMap_singleton, hCount] at hEntries
  refine ⟨_, book', hBook, ⟨hShows.length_eq, ?_, fun j hj => ?_⟩, ?_⟩
  · rw [hPage.length_eq, hEntries, List.length_map, List.length_range]
  · have hEntry : page.entries[j]? = some (pb.entry track j) := by
      rw [hEntries, List.getElem?_map, List.getElem?_range hj]
      rfl
    have hSame := hPage.entries j _ hEntry
    rw [hPb.entry_eq hj] at hSame
    exact Prod.mk.inj hSame
  · rw [hPage.togo_eq, ← hPb.tracknodes _ (by omega), ← hCount]
    exact Option.some.inj hTogo

end Book

/-- The turnouts that a route sets are those of its branches, the last node apart. -/
theorem turnouts_lead_along [DecidableEq Node] [Fintype Node] (world : EngineerWorld Node)
    (hTrack : world.track.WellFormed) (hIndex : ∀ n, world.gTrack (world.track.idx n) = n)
    (hSwitch : world.track.Switchable) (nodes : List Node) (hShort : 2 ≤ nodes.length)
    (hNodup : nodes.Nodup) (hEdges : world.track.FollowsEdges nodes) (pb : PathBuffer Node)
    (hPb : pb.Holds nodes) (book : Ebook Node) (t : EngineerTurn Node) :
    ∃ count book' t', makeEbook world.track pb book = .ok (count, book') ∧
      setTargetFromEnstruction world t (book'.enstructs 0) = .ok t' ∧
      world.track.LeadsAlong t'.trackBitmap nodes ∧
      world.track.SetsOnly nodes.dropLast t.trackBitmap t'.trackBitmap := by
  have hLength : nodes.length ≤ maxPathLength := hNodup.length_le_card.trans hTrack.card_le
  obtain ⟨count, book', hBook, hBegins, hTogo⟩ := makeEbook_begins hPb hShort hLength book
  have hCarries : (book'.enstructs 0).CarriesFrom world.track 0 nodes := by
    intro j hj
    rw [Nat.zero_add]
    exact hBegins.entries j hj
  obtain ⟨t', hThrow, hLeads, hOnly⟩ := throwTurnouts_leadsAlong hSwitch hIndex hEdges hNodup
    hCarries (by omega) t
  obtain ⟨t'', hTarget, hBitmap⟩ : ∃ t'',
      setTargetFromEnstruction world t (book'.enstructs 0) = .ok t'' ∧
        t''.trackBitmap = t'.trackBitmap := by
    rw [setTargetFromEnstruction, hBegins.length_enstruct, Int.toNat_natCast, hThrow, hTogo,
      List.getElem?_eq_getElem (by omega)]
    exact ⟨_, rfl, rfl⟩
  rw [← hBitmap] at hLeads hOnly
  exact ⟨count, book', t'', hBook, hTarget, hLeads, hOnly⟩

/-- A sensor, a branch and two ends; the odd nodes are the same places in the other direction. -/
def fork : Track (Fin 8) where
  idx n := n.val
  type := ![.sensor, .exit, .branch, .merge, .exit, .enter, .exit, .enter]
  num _ := 153
  reverse := ![1, 0, 3, 2, 5, 4, 7, 6]
  dest n d :=
    if d = dirStraight then ![some 2, none, some 4, some 1, none, some 3, none, some 3] n
    else if n = 2 then some 6 else none
  dist _ _ := 100

def forkWorld : EngineerWorld (Fin 8) := ⟨fork, fun i => Fin.ofNat 8 i.toNat, 5⟩

theorem fork_wellFormed : fork.WellFormed where
  idx_injective n m h := Fin.ext (Int.ofNat_inj.mp h)
  reverse_involutive := show ∀ n, fork.reverse (fork.reverse n) = n by decide
  reverse_ne := by decide
  dest_isSome := by decide
  dest_ne := by decide
  dist_nonneg _ _ := (by decide : (0 : Int) ≤ 100)
  card_le := by decide

theorem fork_branch : ∀ n, fork.type n = .branch → n = 2 := by decide

theorem fork_switchable : fork.Switchable where
  idx_pos n hBranch := by rw [fork_branch n hBranch]; decide
  isTurnout n _ := Or.inr (by decide : (153 : Int) ≤ 153 ∧ (153 : Int) ≤ 156)
  num_injective n m hn hm _ := (fork_branch n hn).trans (fork_branch m hm).symm
  dest_ne n hBranch := by rw [fork_branch n hBranch]; decide

def curvedRoute : PathBuffer (Fin 8) := ⟨5, 3, fun i => [0, 2, 6][i]?, fun _ => false⟩

def forkBook : Ebook (Fin 8) := ⟨fun _ => ⟨0, 0, ⟨none, 0⟩, fun _ => 0, fun _ => none⟩, 0⟩

def forkTurn : EngineerTurn (Fin 8) :=
  ⟨Engineer.start 66 0 7 (fun _ => ⟨.setSpeed, 0, 0⟩) ⟨0, 0⟩ ⟨.init, 0, 0, 0, 0, none, none, none⟩
    forkBook, 0, []⟩

theorem turnouts_lead_along_fork : ∃ count book' t',
    makeEbook fork curvedRoute forkBook = .ok (count, book') ∧
      setTargetFromEnstruction forkWorld forkTurn (book'.enstructs 0) = .ok t' ∧
      fork.LeadsAlong t'.trackBitmap [0, 2, 6] ∧
      fork.SetsOnly [0, 2] forkTurn.trackBitmap t'.trackBitmap := by
  have hEdges : fork.FollowsEdges [0, 2, 6] := by
    unfold Track.FollowsEdges
    decide
  exact turnouts_lead_along forkWorld fork_wellFormed (by decide) fork_switchable [0, 2, 6]
    (by decide) (by decide) hEdges curvedRoute ⟨rfl, fun i _ => rfl, fun i _ => rfl⟩ forkBook
    forkTurn

end TrainKernel.User
