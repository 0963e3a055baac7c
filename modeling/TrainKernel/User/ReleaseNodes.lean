import TrainKernel.User.Engineer
import TrainKernel.User.NextClaims

/-!
# The nodes to release

A train gives back the track behind it. What lies behind a node is found in the other direction of
travel: the way on from its reverse, reversed.
-/

namespace TrainKernel.User

variable {Node : Type}

section behind

variable (track : Track Node) (owner : Owners Node) (tid : Nat)

/-- What lies behind a node on one of the edges of its reverse. -/
def Track.behind (n : Node) (d : Dir) : Option Node :=
  (track.dest (track.reverse n) d).map track.reverse

/-- The node that the search backwards goes on with. At a merge it looks at the owners of the two
candidates' reverse nodes, elsewhere it looks at no owner. -/
def Track.GoesBack (n p : Node) : Prop :=
  match track.type n with
  | .sensor | .branch => track.behind n dirAhead = some p
  | .merge =>
    track.behind n dirStraight = some p ∧ owner (track.reverse p) = tid ∨
      (∀ s, track.behind n dirStraight = some s → owner (track.reverse s) ≠ tid) ∧
        track.behind n dirCurved = some p ∧ owner (track.reverse p) = tid
  | _ => False

/-- What makes the search do right at a node: the one predecessor of a sensor or a branch is owned,
that of an exit is not, and at a merge the owners of the reverse nodes do not mislead. -/
def Track.OwnersAgree (n : Node) : Prop :=
  match track.type n with
  | .sensor | .branch => ∀ p, track.behind n dirAhead = some p → owner p = tid
  | .merge => ∀ s c, track.behind n dirStraight = some s → track.behind n dirCurved = some c →
    if owner (track.reverse s) = tid then owner s = tid
    else if owner (track.reverse c) = tid then owner c = tid
    else owner s ≠ tid ∧ owner c ≠ tid
  | .exit => ∀ p, track.behind n dirAhead = some p → owner p ≠ tid
  | _ => True

/-- The owners agree at all the nodes that the search comes to in so many rounds. -/
def Track.AgreeBack : Nat → Node → Prop
  | 0, _ => True
  | rounds + 1, n => track.OwnersAgree owner tid n ∧
    ∀ p, track.GoesBack owner tid n p → Track.AgreeBack rounds p

/-- What `getReleaseNodes` is for. -/
structure ReleasesOwnChain (src : Node) (l : List Node) : Prop where
  head : l.head? = if owner src = tid then some src else none
  owned : ∀ n ∈ l, owner n = tid
  chain : l.IsChain fun n p => track.Edge p n
  length_le : l.length ≤ maxReleaseSize
  ends : ∀ n p, l.getLast? = some n → l.length < maxReleaseSize → track.Edge p n → owner p ≠ tid

end behind

/-- What the loop stores after a node. -/
def Track.TracesBack (track : Track Node) (owner : Owners Node) (tid : Nat) :
    Nat → Node → List Node → Prop
  | 0, _, rest => rest = []
  | _ + 1, n, [] => ∀ p, ¬track.GoesBack owner tid n p
  | rounds + 1, n, p :: rest => track.GoesBack owner tid n p ∧
    Track.TracesBack track owner tid rounds p rest

/-- What is wanted of the nodes stored after an owned one. -/
structure TailOwned (track : Track Node) (owner : Owners Node) (tid : Nat) (rounds : Nat) (n : Node)
    (rest : List Node) : Prop where
  owned : ∀ p ∈ rest, owner p = tid
  chain : (n :: rest).IsChain fun n p => track.Edge p n
  length_le : rest.length ≤ rounds
  ends : ∀ m p, (n :: rest).getLast? = some m → rest.length < rounds → track.Edge p m →
    owner p ≠ tid

variable {track : Track Node} {trackBitmap : TrackBitmap} {owner : Owners Node}
variable {tid rounds : Nat} {n p q s c src : Node} {rest : List Node}

theorem ownersAgree_merge (hMerge : track.type n = .merge)
    (hStraight : track.behind n dirStraight = some s)
    (hCurved : track.behind n dirCurved = some c) :
    track.OwnersAgree owner tid n ↔
      if owner (track.reverse s) = tid then owner s = tid
      else if owner (track.reverse c) = tid then owner c = tid
      else owner s ≠ tid ∧ owner c ≠ tid := by
  rw [Track.OwnersAgree, hMerge]
  constructor
  · intro hAll
    exact hAll s c hStraight hCurved
  · intro hOne s' c' hs' hc'
    obtain rfl := Option.some.inj (hStraight.symm.trans hs')
    obtain rfl := Option.some.inj (hCurved.symm.trans hc')
    exact hOne

theorem tailOwned_cons : TailOwned track owner tid (rounds + 1) n (p :: rest) ↔
    owner p = tid ∧ track.Edge p n ∧ TailOwned track owner tid rounds p rest := by
  constructor
  · rintro ⟨hOwned, hChain, hLength, hEnds⟩
    obtain ⟨hp, hRest⟩ := List.forall_mem_cons.mp hOwned
    obtain ⟨hEdge, hChain⟩ := List.isChain_cons_cons.mp hChain
    rw [List.length_cons] at hLength hEnds
    refine ⟨hp, hEdge, hRest, hChain, Nat.le_of_succ_le_succ hLength, ?_⟩
    intro m q hLast hShort
    exact hEnds m q (by rwa [List.getLast?_cons_cons]) (Nat.succ_lt_succ hShort)
  · rintro ⟨hp, hEdge, hRest, hChain, hLength, hEnds⟩
    refine ⟨List.forall_mem_cons.mpr ⟨hp, hRest⟩, .cons_cons hEdge hChain,
      Nat.succ_le_succ hLength, ?_⟩
    intro m q hLast hShort
    rw [List.getLast?_cons_cons] at hLast
    exact hEnds m q hLast (Nat.lt_of_succ_lt_succ hShort)

theorem releasesOwnChain_iff (hOwner : owner src = tid) :
    ReleasesOwnChain track owner tid src (src :: rest) ↔
      TailOwned track owner tid (maxReleaseSize - 1) src rest := by
  have hMax : maxReleaseSize = (maxReleaseSize - 1) + 1 := rfl
  constructor
  · rintro ⟨-, hOwned, hChain, hLength, hEnds⟩
    rw [List.length_cons, hMax] at hLength hEnds
    refine ⟨(List.forall_mem_cons.mp hOwned).2, hChain, Nat.le_of_succ_le_succ hLength, ?_⟩
    intro m p hLast hShort
    exact hEnds m p hLast (Nat.succ_lt_succ hShort)
  · rintro ⟨hOwned, hChain, hLength, hEnds⟩
    refine ⟨(if_pos hOwner).symm, List.forall_mem_cons.mpr ⟨hOwner, hOwned⟩, hChain,
      Nat.succ_le_succ hLength, ?_⟩
    intro m p hLast hShort
    exact hEnds m p hLast (Nat.lt_of_succ_lt_succ hShort)

section laidOut

variable [Fintype Node] (hTrack : track.LaidOut)
include hTrack

theorem edges_reverse : track.edges (track.reverse n) = match track.type n with
    | .merge => [dirStraight, dirCurved]
    | .enter => []
    | _ => [dirAhead] := by
  rw [Track.edges, hTrack.type_reverse]
  cases track.type n <;> rfl

/-- The predecessors of a node are what lies behind it. -/
theorem edge_iff_behind : track.Edge p n ↔
    ∃ d ∈ track.edges (track.reverse n), track.behind n d = some p := by
  constructor
  · intro hEdge
    obtain ⟨d, hd, hDest⟩ := hTrack.edge_reverse p n hEdge
    refine ⟨d, hd, ?_⟩
    rw [Track.behind, hDest, Option.map_some, hTrack.reverse_involutive]
  · rintro ⟨d, hd, hBehind⟩
    obtain ⟨m, hDest, rfl⟩ := Option.map_eq_some_iff.mp hBehind
    have hEdge := hTrack.edge_reverse (track.reverse n) m ⟨d, hd, hDest⟩
    rwa [hTrack.reverse_involutive] at hEdge

theorem exists_behind {d : Dir} (hd : d ∈ track.edges (track.reverse n)) :
    ∃ m, track.dest (track.reverse n) d = some m ∧ track.behind n d = some (track.reverse m) := by
  obtain ⟨m, hDest⟩ := Option.isSome_iff_exists.mp (hTrack.dest_isSome _ d hd)
  exact ⟨m, hDest, by rw [Track.behind, hDest, Option.map_some]⟩

theorem edge_of_goesBack (h : track.GoesBack owner tid n p) : track.Edge p n := by
  rw [edge_iff_behind hTrack, edges_reverse hTrack]
  rw [Track.GoesBack] at h
  cases hType : track.type n with
  | sensor | branch =>
    rw [hType] at h
    exact ⟨dirAhead, List.mem_singleton_self _, h⟩
  | merge =>
    rw [hType] at h
    rcases h with ⟨hBehind, -⟩ | ⟨-, hBehind, -⟩
    · exact ⟨dirStraight, by simp, hBehind⟩
    · exact ⟨dirCurved, by simp, hBehind⟩
  | _ =>
    rw [hType] at h
    cases h

theorem getPrevOwnedNode_ahead (hExit : track.type n ≠ .exit)
    (hReverse : track.type (track.reverse n) = .sensor ∨ track.type (track.reverse n) = .merge) :
    getPrevOwnedNode track trackBitmap owner n tid = .ok (track.behind n dirAhead) := by
  have hAhead : track.ahead trackBitmap (track.reverse n) =
      track.dest (track.reverse n) dirAhead := by
    rcases hReverse with hType | hType <;> exact Track.ahead_eq (by simp [hType]) (by simp [hType])
  have hMem : dirAhead ∈ track.edges (track.reverse n) := by
    rcases hReverse with hType | hType <;> simp [Track.edges, hType]
  obtain ⟨m, hDest, hBehind⟩ := exists_behind hTrack hMem
  rw [getPrevOwnedNode, if_neg hExit, hBehind]
  dsimp only
  rw [hTrack.getNextNode_eq, hAhead, hDest]
  rcases hReverse with hType | hType <;> simp only [hType] <;> rfl

theorem getPrevOwnedNode_merge (hMerge : track.type n = .merge) :
    ∃ s c, track.behind n dirStraight = some s ∧ track.behind n dirCurved = some c ∧
      getPrevOwnedNode track trackBitmap owner n tid = .ok (
        if owner (track.reverse s) = tid then some s
        else if owner (track.reverse c) = tid then some c else none) := by
  have hReverse : track.type (track.reverse n) = .branch := by
    rw [hTrack.type_reverse, hMerge]
    rfl
  have hEdges := track.edges_branch hReverse
  obtain ⟨s, hStraight, hBehind⟩ := exists_behind hTrack
    (by rw [hEdges]; decide : dirStraight ∈ track.edges (track.reverse n))
  obtain ⟨c, hCurved, hBehind'⟩ := exists_behind hTrack
    (by rw [hEdges]; decide : dirCurved ∈ track.edges (track.reverse n))
  refine ⟨_, _, hBehind, hBehind', ?_⟩
  rw [hTrack.reverse_involutive, hTrack.reverse_involutive, getPrevOwnedNode,
    if_neg (by simp [hMerge])]
  simp only [hReverse, hStraight, hCurved]
  dsimp only [bind, Except.bind, deref]
  split_ifs <;> rfl

theorem getPrevOwnedNode_goesBack :
    ∃ o, getPrevOwnedNode track trackBitmap owner n tid = .ok o ∧
      ∀ p, o = some p ↔ track.GoesBack owner tid n p := by
  cases hType : track.type n with
  | none => exact absurd hType (hTrack.type_ne_none n)
  | sensor | branch =>
    refine ⟨_, getPrevOwnedNode_ahead hTrack (by simp [hType]) ?_, fun p => ?_⟩
    · simp [hTrack.type_reverse, hType, NodeType.reverse]
    · rw [Track.GoesBack, hType]
  | merge =>
    obtain ⟨s, c, hStraight, hCurved, hPrev⟩ := getPrevOwnedNode_merge hTrack hType
    refine ⟨_, hPrev, fun p => ?_⟩
    rw [Track.GoesBack, hType, hStraight, hCurved]
    split_ifs with hs hc
    · exact ⟨fun hp => Or.inl ⟨hp, Option.some.inj hp ▸ hs⟩,
        fun h => h.elim And.left fun hOther => absurd hs (hOther.1 s rfl)⟩
    · refine ⟨fun hp => Or.inr ⟨fun s' hs' => Option.some.inj hs' ▸ hs, hp, ?_⟩, ?_⟩
      · exact Option.some.inj hp ▸ hc
      · rintro (⟨hp, hOwned⟩ | ⟨-, hp, -⟩)
        · obtain rfl := Option.some.inj hp
          exact absurd hOwned hs
        · exact hp
    · refine ⟨nofun, ?_⟩
      rintro (⟨hp, hOwned⟩ | ⟨-, hp, hOwned⟩)
      · obtain rfl := Option.some.inj hp
        exact absurd hOwned hs
      · obtain rfl := Option.some.inj hp
        exact absurd hOwned hc
  | enter =>
    refine ⟨none, ?_, fun p => ?_⟩
    · rw [getPrevOwnedNode, if_neg (by simp [hType])]
      simp only [hTrack.type_reverse, hType]
      rfl
    · rw [Track.GoesBack, hType]
      exact iff_of_false nofun id
  | exit =>
    refine ⟨none, ?_, fun p => ?_⟩
    · rw [getPrevOwnedNode, if_pos hType]
      rfl
    · rw [Track.GoesBack, hType]
      exact iff_of_false nofun id

theorem exists_behind_merge (hMerge : track.type n = .merge) :
    ∃ s c, track.behind n dirStraight = some s ∧ track.behind n dirCurved = some c := by
  have hEdges : track.edges (track.reverse n) = _ := edges_reverse hTrack
  rw [hMerge] at hEdges
  obtain ⟨_, -, hStraight⟩ := exists_behind hTrack
    (by rw [hEdges]; decide : dirStraight ∈ track.edges (track.reverse n))
  obtain ⟨_, -, hCurved⟩ := exists_behind hTrack
    (by rw [hEdges]; decide : dirCurved ∈ track.edges (track.reverse n))
  exact ⟨_, _, hStraight, hCurved⟩

theorem ownersAgree_of_goesBack (h : track.GoesBack owner tid n p) :
    track.OwnersAgree owner tid n ↔ owner p = tid := by
  rw [Track.GoesBack] at h
  cases hType : track.type n with
  | sensor | branch =>
    rw [hType] at h
    rw [Track.OwnersAgree, hType]
    constructor
    · intro hAgree
      exact hAgree p h
    · intro hOwned p' hp'
      obtain rfl := Option.some.inj (h.symm.trans hp')
      exact hOwned
  | merge =>
    obtain ⟨s, c, hStraight, hCurved⟩ := exists_behind_merge hTrack hType
    rw [hType, hStraight, hCurved] at h
    rw [ownersAgree_merge hType hStraight hCurved]
    rcases h with ⟨hp, hOwned⟩ | ⟨hNot, hp, hOwned⟩
    · obtain rfl := Option.some.inj hp
      rw [if_pos hOwned]
    · obtain rfl := Option.some.inj hp
      rw [if_neg (hNot s rfl), if_pos hOwned]
  | _ =>
    rw [hType] at h
    cases h

theorem ownersAgree_of_stop (hStop : ∀ p, ¬track.GoesBack owner tid n p) :
    track.OwnersAgree owner tid n ↔ ∀ p, track.Edge p n → owner p ≠ tid := by
  simp only [edge_iff_behind hTrack, edges_reverse hTrack]
  simp only [Track.GoesBack] at hStop
  cases hType : track.type n with
  | none => exact absurd hType (hTrack.type_ne_none n)
  | sensor | branch =>
    have hMem : dirAhead ∈ track.edges (track.reverse n) := by
      rw [edges_reverse hTrack, hType]
      exact List.mem_singleton_self _
    obtain ⟨_, -, hBehind⟩ := exists_behind hTrack hMem
    simp only [hType] at hStop
    exact absurd hBehind (hStop _)
  | merge =>
    obtain ⟨s, c, hStraight, hCurved⟩ := exists_behind_merge hTrack hType
    simp only [hType, hStraight, hCurved] at hStop
    have hs : owner (track.reverse s) ≠ tid := fun hs => hStop s (Or.inl ⟨rfl, hs⟩)
    have hc : owner (track.reverse c) ≠ tid := fun hc => hStop c (Or.inr ⟨by simpa, rfl, hc⟩)
    rw [ownersAgree_merge hType hStraight hCurved, if_neg hs, if_neg hc]
    simp [hStraight, hCurved, or_imp, forall_and]
  | enter =>
    rw [Track.OwnersAgree, hType]
    simp
  | exit =>
    rw [Track.OwnersAgree, hType]
    simp

theorem releaseNodesLoop_tracesBack :
    ∃ rest, releaseNodesLoop track trackBitmap owner tid rounds n = .ok rest ∧
      track.TracesBack owner tid rounds n rest := by
  induction rounds generalizing n with
  | zero => exact ⟨[], rfl, rfl⟩
  | succ rounds ih =>
    obtain ⟨o, hPrev, hGoes⟩ : ∃ o, getPrevOwnedNode track trackBitmap owner n tid = .ok o ∧ _ :=
      getPrevOwnedNode_goesBack hTrack
    rw [releaseNodesLoop, hPrev]
    cases o with
    | none => exact ⟨[], rfl, fun p hp => nomatch (hGoes p).mpr hp⟩
    | some p =>
      obtain ⟨rest, hLoop, hTraces⟩ := ih (n := p)
      refine ⟨p :: rest, ?_, (hGoes p).mp rfl, hTraces⟩
      dsimp only [bind, Except.bind]
      rw [hLoop]
      rfl

theorem goesBack_unique (hp : track.GoesBack owner tid n p)
    (hq : track.GoesBack owner tid n q) : p = q := by
  obtain ⟨o, -, hGoes⟩ : ∃ o, getPrevOwnedNode track 0 owner n tid = .ok o ∧ _ :=
    getPrevOwnedNode_goesBack hTrack
  exact Option.some.inj (((hGoes p).mpr hp).symm.trans ((hGoes q).mpr hq))

theorem tailOwned_iff (hTraces : track.TracesBack owner tid rounds n rest) :
    TailOwned track owner tid rounds n rest ↔ track.AgreeBack owner tid rounds n := by
  induction rounds generalizing n rest with
  | zero =>
    obtain rfl := hTraces
    refine iff_of_true ⟨nofun, .singleton n, le_refl _, ?_⟩ trivial
    exact fun _ _ _ hShort => absurd hShort (lt_irrefl 0)
  | succ rounds ih =>
    rw [Track.AgreeBack]
    cases rest with
    | nil =>
      rw [ownersAgree_of_stop hTrack hTraces]
      constructor
      · intro hTail
        exact ⟨fun p hEdge => hTail.ends n p rfl (Nat.succ_pos rounds) hEdge,
          fun p hGoes => absurd hGoes (hTraces p)⟩
      · rintro ⟨hEnds, -⟩
        refine ⟨nofun, .singleton n, Nat.zero_le _, fun m p hLast _ hEdge => ?_⟩
        obtain rfl := Option.some.inj hLast
        exact hEnds p hEdge
    | cons p rest =>
      obtain ⟨hGoes, hTraces⟩ := hTraces
      have hEdge := edge_of_goesBack hTrack hGoes
      rw [ownersAgree_of_goesBack hTrack hGoes, tailOwned_cons, ih hTraces]
      constructor
      · rintro ⟨hOwned, -, hAgree⟩
        refine ⟨hOwned, fun q hq => ?_⟩
        rw [← goesBack_unique hTrack hGoes hq]
        exact hAgree
      · rintro ⟨hOwned, hAgree⟩
        exact ⟨hOwned, hEdge, hAgree p hGoes⟩

/-- Exactly the owned nodes behind the start are stored if and only if the owners agree on the way
back. -/
theorem releases_own_iff :
    (∃ l, getReleaseNodes track trackBitmap owner src tid = .ok l ∧
      ReleasesOwnChain track owner tid src l) ↔
      (owner src = tid → track.AgreeBack owner tid (maxReleaseSize - 1) src) := by
  rw [getReleaseNodes]
  by_cases hOwner : owner src = tid
  · obtain ⟨rest, hLoop, hTraces⟩ : ∃ rest, releaseNodesLoop track trackBitmap owner tid
        (maxReleaseSize - 1) src = .ok rest ∧ _ := releaseNodesLoop_tracesBack hTrack
    rw [if_neg (not_not.mpr hOwner), hLoop, imp_iff_right hOwner, ← tailOwned_iff hTrack hTraces,
      ← releasesOwnChain_iff hOwner]
    constructor
    · rintro ⟨l, hStored, hOwn⟩
      obtain rfl := Except.ok.inj hStored
      exact hOwn
    · intro hOwn
      exact ⟨src :: rest, rfl, hOwn⟩
  · rw [if_pos hOwner]
    refine iff_of_true ⟨[], rfl, ?_⟩ fun hOwned => absurd hOwned hOwner
    exact ⟨(if_neg hOwner).symm, nofun, .nil, Nat.zero_le _, nofun⟩

end laidOut

/-- A train that owns all nodes gives back the entrance with the sensor. -/
theorem releases_own_siding : ∃ l, getReleaseNodes siding 0 (fun _ => 5) 2 5 = .ok l ∧
    ReleasesOwnChain siding (fun _ => 5) 5 2 l := by
  refine (releases_own_iff siding_laidOut).mpr fun _ => ⟨fun _ _ => rfl, fun p hp => ?_⟩
  obtain rfl : 0 = p := Option.some.inj hp
  exact ⟨trivial, nofun⟩

def soleOwner : Owners (Fin 12) := fun n => if n.val = 2 then 5 else -1

/-- A train that owns only the sensor gives back the entrance behind it too. -/
theorem not_releases_own : siding.LaidOut ∧ ¬∃ l, getReleaseNodes siding 0 soleOwner 2 5 = .ok l ∧
    ReleasesOwnChain siding soleOwner 5 2 l := by
  have hStored : getReleaseNodes siding 0 soleOwner 2 5 = .ok [2, 0] := by decide
  refine ⟨siding_laidOut, ?_⟩
  rintro ⟨l, hOk, hOwn⟩
  obtain rfl := Except.ok.inj (hStored.symm.trans hOk)
  exact absurd (hOwn.owned 0 (by decide)) (by decide)

end TrainKernel.User
