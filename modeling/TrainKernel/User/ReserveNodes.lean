import TrainKernel.User.Layout
import TrainKernel.User.LoneTrain

/-!
# The nodes to reserve

A train reserves the track ahead of it, along the turnouts, until the length reaches the distance it
needs or there is an exit. The nodes are stored one after another in an array of the caller. The
length is a machine integer, and only the last sum of all can overflow.
-/

namespace TrainKernel.User

open Library.Int32 Library.Outcome

variable {Node : Type}

section array

variable (track : Track Node) (trackBitmap : TrackBitmap)

def storeNode (nodes : Array (Option Node)) (i : Nat) (node : Node) :
    Except EngineerFault (Array (Option Node)) :=
  if h : i < nodes.size then .ok (nodes.set i (some node)) else .error .outOfBounds

/-- The loop of `getReserveNodes` with the array that it fills; the other loop keeps only the list
of what is stored. -/
def fillReserveNodes (reserveDist : Int) (i : Nat) (dist : Int) (nextNode : Node)
    (reserveNodes : Array (Option Node)) : Except EngineerFault (Nat × Array (Option Node)) :=
  if i < maxReserveSize then
    if dist ≥ reserveDist ∨ track.type nextNode = .exit then return (i, reserveNodes)
    else do
      let nextEdge ← deref .other (← getNextEdge track trackBitmap nextNode)
      let node ← deref .other (← getNextNode track trackBitmap nextNode)
      let reserveNodes ← storeNode reserveNodes i node
      fillReserveNodes reserveDist (i + 1) (wrap32 (dist + track.dist nextNode nextEdge)) node
        reserveNodes
  else .error (.assertion .reserveNodes)
termination_by maxReserveSize - i

/-- The result of `getReserveNodes`, and the array as it leaves it. -/
def storeReserveNodes (src : Node) (reserveDist : Int) (reserveNodes : Array (Option Node)) :
    Except EngineerFault (Nat × Array (Option Node)) := do
  let reserveNodes ← storeNode reserveNodes 0 src
  fillReserveNodes track trackBitmap (reserveDist.tdiv 1000) 1 0 src reserveNodes

/-- The array with these nodes in it from an index on. -/
def holding (nodes : Array (Option Node)) (i : Nat) (l : List Node) : Array (Option Node) :=
  (nodes.toList.take i ++ l.map some ++ nodes.toList.drop (i + l.length)).toArray

variable {track trackBitmap} {nodes : Array (Option Node)} {i rounds : Nat} {n m src : Node}
variable {l rest : List Node} {dist reserveDist : Int}

theorem holding_nil : holding nodes i [] = nodes := by
  simp [holding]

theorem holding_set (h : i < nodes.size) :
    holding (nodes.set i (some n)) (i + 1) l = holding nodes i (n :: l) := by
  have hTake : (nodes.toList.set i (some n)).take (i + 1) = nodes.toList.take i ++ [some n] := by
    rw [List.set_eq_take_append_cons_drop, if_pos (by simpa using h)]
    simp [List.take_append, h.le]
  have hDrop : (nodes.toList.set i (some n)).drop (i + 1 + l.length) =
      nodes.toList.drop (i + (n :: l).length) := by
    rw [List.drop_set_of_lt (by omega), List.length_cons]
    congr 1
    omega
  rw [holding, holding, Array.toList_set, hTake, hDrop, List.map_cons, List.append_assoc,
    List.append_assoc, List.append_assoc]
  rfl

theorem held_cons (h : i < nodes.size) :
    (i + 1 + l.length, holding (nodes.set i (some n)) (i + 1) l) =
      (i + (n :: l).length, holding nodes i (n :: l)) := by
  rw [holding_set h, List.length_cons, Nat.add_assoc, Nat.add_comm 1]

theorem fillReserveNodes_eq (hi : i + rounds = maxReserveSize)
    (hSize : nodes.size = maxReserveSize) :
    fillReserveNodes track trackBitmap reserveDist i dist n nodes =
      (reserveNodesLoop track trackBitmap reserveDist rounds dist n).map fun rest =>
        (i + rest.length, holding nodes i rest) := by
  induction rounds generalizing i dist n nodes with
  | zero =>
    rw [fillReserveNodes, if_neg (by omega), reserveNodesLoop]
    rfl
  | succ rounds ih =>
    rw [fillReserveNodes, if_pos (by omega), reserveNodesLoop]
    split_ifs
    · change Except.ok (i, nodes) = Except.ok (i + 0, holding nodes i [])
      rw [holding_nil, Nat.add_zero]
    cases getNextEdge track trackBitmap n with
    | error => rfl
    | ok nextEdge =>
    cases nextEdge with
    | none => rfl
    | some nextEdge =>
    cases getNextNode track trackBitmap n with
    | error => rfl
    | ok node =>
    cases node with
    | none => rfl
    | some node =>
    have hStore : storeNode nodes i node = .ok (nodes.set i (some node) (by omega)) :=
      dif_pos (by omega)
    have hRest : fillReserveNodes track trackBitmap reserveDist (i + 1)
        (wrap32 (dist + track.dist n nextEdge)) node (nodes.set i (some node) (by omega)) = _ :=
      ih (by omega) (by simpa using hSize)
    dsimp only [bind, Except.bind, deref]
    rw [hStore]
    dsimp only
    rw [hRest]
    cases reserveNodesLoop track trackBitmap reserveDist rounds
      (wrap32 (dist + track.dist n nextEdge)) node with
    | error => rfl
    | ok rest => exact congrArg Except.ok (held_cons (by omega))

/-- The array holds what the list says, and it is written nowhere else. -/
theorem storeReserveNodes_eq (hSize : nodes.size = maxReserveSize) :
    storeReserveNodes track trackBitmap src reserveDist nodes =
      (getReserveNodes track trackBitmap src reserveDist).map fun l =>
        (l.length, holding nodes 0 l) := by
  have hRoom : 0 < nodes.size := by
    rw [hSize]
    decide
  have hStore : storeNode nodes 0 src = .ok (nodes.set 0 (some src)) := dif_pos hRoom
  have hFill : fillReserveNodes track trackBitmap (reserveDist.tdiv 1000) 1 0 src
      (nodes.set 0 (some src)) = _ :=
    fillReserveNodes_eq (Nat.add_sub_cancel' (by decide : 1 ≤ maxReserveSize))
      (by simpa using hSize)
  rw [storeReserveNodes, hStore, getReserveNodes]
  dsimp only [bind, Except.bind]
  rw [hFill]
  cases reserveNodesLoop track trackBitmap (reserveDist.tdiv 1000) (maxReserveSize - 1) 0 src with
  | error => rfl
  | ok rest =>
    have hHeld := held_cons (n := src) (l := rest) hRoom
    rw [Nat.zero_add, Nat.zero_add] at hHeld
    exact congrArg Except.ok hHeld

end array

section needed

variable (track : Track Node) (trackBitmap : TrackBitmap)

def Track.wayLength : List Node → Int
  | n :: m :: l => track.dist n (track.way trackBitmap n) + Track.wayLength (m :: l)
  | _ => 0

/-- A way along the turnouts that is long enough or ends at an exit. -/
structure Track.Covers (src : Node) (distance : Int) (l : List Node) : Prop where
  head : l.head? = some src
  along : l.IsChain fun n m => track.ahead trackBitmap n = some m
  enough : distance ≤ track.wayLength trackBitmap l ∨
    ∃ n, l.getLast? = some n ∧ track.type n = .exit

/-- The nodes that are needed are the shortest such way. -/
structure Track.Needs (src : Node) (distance : Int) (l : List Node) : Prop where
  covers : track.Covers trackBitmap src distance l
  shortest : ∀ l', track.Covers trackBitmap src distance l' → l.length ≤ l'.length

/-- The length behind a distance is a machine integer, or the way ends where no length is asked
for. -/
def Track.LengthFits (distance : Int) (l : List Node) : Prop :=
  FitsInt (distance + track.wayLength trackBitmap l) ∨
    ∃ n, l.getLast? = some n ∧ track.type n = .exit

/-- What `getReserveNodes` is for. -/
structure ReservesNeeded (src : Node) (reserveDist : Int) (nodes : Array (Option Node)) : Prop where
  inBounds : storeReserveNodes track trackBitmap src reserveDist nodes ≠ .error .outOfBounds
  stores : ∀ l, track.Needs trackBitmap src (reserveDist.tdiv 1000) l →
    l.length ≤ maxReserveSize → storeReserveNodes track trackBitmap src reserveDist nodes =
      .ok (l.length, holding nodes 0 l)
  fails : ∀ fault, storeReserveNodes track trackBitmap src reserveDist nodes = .error fault →
    ∀ l, track.Needs trackBitmap src (reserveDist.tdiv 1000) l → maxReserveSize < l.length

variable {track trackBitmap} {n m src : Node} {l l' rest : List Node}
variable {distance dist reserveDist : Int} {rounds : Nat}

theorem Track.Needs.length_eq (h : track.Needs trackBitmap src distance l)
    (h' : track.Needs trackBitmap src distance l') : l.length = l'.length :=
  Nat.le_antisymm (h.shortest l' h'.covers) (h'.shortest l h.covers)

theorem covers_stop (hStop : distance ≤ 0 ∨ track.type n = .exit) :
    track.Covers trackBitmap n distance [n] :=
  ⟨rfl, .singleton n, hStop.imp_right fun hExit => ⟨n, rfl, hExit⟩⟩

theorem needs_stop_iff (hStop : distance ≤ 0 ∨ track.type n = .exit) :
    track.Needs trackBitmap n distance l ↔ l = [n] := by
  constructor
  · intro hNeeds
    have hShort := hNeeds.shortest _ (covers_stop hStop)
    obtain ⟨rest, rfl⟩ := List.head?_eq_some_iff.mp hNeeds.covers.head
    rw [List.length_cons, List.length_singleton] at hShort
    rw [List.length_eq_zero_iff.mp (by omega : rest.length = 0)]
  · rintro rfl
    refine ⟨covers_stop hStop, fun l' hCovers => ?_⟩
    obtain ⟨rest, rfl⟩ := List.head?_eq_some_iff.mp hCovers.head
    exact Nat.succ_le_succ (Nat.zero_le _)

theorem covers_step_iff (hNot : ¬(distance ≤ 0 ∨ track.type n = .exit))
    (hAhead : track.ahead trackBitmap n = some m) :
    track.Covers trackBitmap n distance l ↔ ∃ rest, l = n :: rest ∧
      track.Covers trackBitmap m (distance - track.dist n (track.way trackBitmap n)) rest := by
  constructor
  · intro hCovers
    obtain ⟨rest, rfl⟩ := List.head?_eq_some_iff.mp hCovers.head
    refine ⟨rest, rfl, ?_⟩
    cases rest with
    | nil =>
      refine absurd (hCovers.enough.imp id ?_) hNot
      rintro ⟨n', hLast, hExit⟩
      obtain rfl := Option.some.inj hLast
      exact hExit
    | cons m' rest =>
      obtain ⟨hAhead', hAlong⟩ := List.isChain_cons_cons.mp hCovers.along
      obtain rfl := Option.some.inj (hAhead.symm.trans hAhead')
      refine ⟨rfl, hAlong, hCovers.enough.imp (fun hEnough => ?_) fun hExit => ?_⟩
      · rw [Track.wayLength] at hEnough
        omega
      · rwa [List.getLast?_cons_cons] at hExit
  · rintro ⟨rest, rfl, hCovers⟩
    obtain ⟨rest, rfl⟩ := List.head?_eq_some_iff.mp hCovers.head
    refine ⟨rfl, .cons_cons hAhead hCovers.along, hCovers.enough.imp (fun hEnough => ?_)
      fun hExit => ?_⟩
    · rw [Track.wayLength]
      omega
    · rwa [List.getLast?_cons_cons]

theorem needs_step_iff (hNot : ¬(distance ≤ 0 ∨ track.type n = .exit))
    (hAhead : track.ahead trackBitmap n = some m) :
    track.Needs trackBitmap n distance l ↔ ∃ rest, l = n :: rest ∧
      track.Needs trackBitmap m (distance - track.dist n (track.way trackBitmap n)) rest := by
  constructor
  · rintro ⟨hCovers, hShortest⟩
    obtain ⟨rest, rfl, hRest⟩ := (covers_step_iff hNot hAhead).mp hCovers
    refine ⟨rest, rfl, hRest, fun l' hCovers' => ?_⟩
    exact Nat.le_of_succ_le_succ
      (hShortest (n :: l') ((covers_step_iff hNot hAhead).mpr ⟨l', rfl, hCovers'⟩))
  · rintro ⟨rest, rfl, hCovers, hShortest⟩
    refine ⟨(covers_step_iff hNot hAhead).mpr ⟨rest, rfl, hCovers⟩, fun l' hCovers' => ?_⟩
    obtain ⟨rest', rfl, hRest'⟩ := (covers_step_iff hNot hAhead).mp hCovers'
    exact Nat.succ_le_succ (hShortest rest' hRest')

/-! ## What the loop stores -/

variable [Fintype Node] (hTrack : track.LaidOut)
include hTrack

theorem reserveNodesLoop_step (hNot : ¬(dist ≥ reserveDist ∨ track.type n = .exit))
    (hAhead : track.ahead trackBitmap n = some m) :
    reserveNodesLoop track trackBitmap reserveDist (rounds + 1) dist n =
      (reserveNodesLoop track trackBitmap reserveDist rounds
        (wrap32 (dist + track.distAhead trackBitmap n)) m).map (m :: ·) := by
  rw [reserveNodesLoop, if_neg hNot, hTrack.getNextEdge_eq fun hExit => hNot (Or.inr hExit),
    hTrack.getNextNode_eq, hAhead, Track.distAhead]
  dsimp only [bind, Except.bind, deref]
  cases reserveNodesLoop track trackBitmap reserveDist rounds
    (wrap32 (dist + track.dist n (track.way trackBitmap n))) m <;> rfl

/-- The only fault is the assertion behind the loop. -/
theorem reserveNodesLoop_fault {fault : EngineerFault}
    (hFault : reserveNodesLoop track trackBitmap reserveDist rounds dist n = .error fault) :
    fault = .assertion .reserveNodes := by
  induction rounds generalizing dist n with
  | zero => exact (Except.error.inj hFault).symm
  | succ rounds ih =>
    by_cases hStop : dist ≥ reserveDist ∨ track.type n = .exit
    · rw [reserveNodesLoop, if_pos hStop] at hFault
      cases hFault
    · obtain ⟨m, hAhead⟩ : ∃ m, track.ahead trackBitmap n = some m :=
        hTrack.exists_ahead fun hExit => hStop (Or.inr hExit)
      rw [reserveNodesLoop_step hTrack hStop hAhead] at hFault
      cases hRest : reserveNodesLoop track trackBitmap reserveDist rounds
        (wrap32 (dist + track.distAhead trackBitmap n)) m with
      | error fault' =>
        rw [hRest] at hFault
        obtain rfl := Except.error.inj hFault
        exact ih hRest
      | ok l =>
        rw [hRest] at hFault
        cases hFault

/-- Either the loop stops here, or it goes on, and unless the sum still fits an integer the next
node is the last that is needed. -/
theorem loop_cases (hNeeds : track.Needs trackBitmap n (reserveDist - dist) (n :: rest))
    (hPos : 0 ≤ dist) (hFits : FitsInt reserveDist) :
    (dist ≥ reserveDist ∨ track.type n = .exit) ∧ rest = [] ∨
      ¬(dist ≥ reserveDist ∨ track.type n = .exit) ∧
        ∃ m rest', track.ahead trackBitmap n = some m ∧ rest = m :: rest' ∧
          track.Needs trackBitmap m (reserveDist - (dist + track.distAhead trackBitmap n))
            (m :: rest') ∧
          (FitsInt (dist + track.distAhead trackBitmap n) ∨
            2 ^ 31 ≤ dist + track.distAhead trackBitmap n ∧ rest' = []) := by
  by_cases hStop : dist ≥ reserveDist ∨ track.type n = .exit
  · have hOnly := (needs_stop_iff (hStop.imp_left fun h => by omega)).mp hNeeds
    exact .inl ⟨hStop, (List.cons.inj hOnly).2⟩
  · have hNot : ¬(reserveDist - dist ≤ 0 ∨ track.type n = .exit) :=
      mt (Or.imp_left fun h => by omega) hStop
    obtain ⟨m, hAhead⟩ : ∃ m, track.ahead trackBitmap n = some m :=
      hTrack.exists_ahead fun hExit => hStop (Or.inr hExit)
    obtain ⟨rest', hEq, hRest⟩ := (needs_step_iff hNot hAhead).mp hNeeds
    obtain rfl := (List.cons.inj hEq).2
    obtain ⟨rest, rfl⟩ := List.head?_eq_some_iff.mp hRest.covers.head
    rw [Int.sub_sub] at hRest
    refine .inr ⟨hStop, m, rest, hAhead, rfl, hRest, ?_⟩
    have hEdge : 0 ≤ track.distAhead trackBitmap n := hTrack.dist_nonneg _ _
    rcases lt_or_ge (dist + track.distAhead trackBitmap n) (2 ^ 31) with hSum | hSum
    · exact .inl ⟨by omega, hSum⟩
    · obtain ⟨-, hHigh⟩ := hFits
      have hOnly := (needs_stop_iff (.inl (by
        change reserveDist - (dist + track.distAhead trackBitmap n) ≤ 0
        omega))).mp hRest
      exact .inr ⟨by omega, (List.cons.inj hOnly).2⟩

omit [Fintype Node] hTrack in
theorem lengthFits_cons_iff :
    track.LengthFits trackBitmap dist (n :: m :: rest) ↔
      track.LengthFits trackBitmap (dist + track.distAhead trackBitmap n) (m :: rest) := by
  rw [Track.LengthFits, Track.LengthFits, Track.wayLength, Int.add_assoc, List.getLast?_cons_cons]
  rfl

theorem reserveNodesLoop_of_needs (hFits : FitsInt reserveDist) (hPos : 0 ≤ dist)
    (hNeeds : track.Needs trackBitmap n (reserveDist - dist) (n :: rest))
    (hLength : track.LengthFits trackBitmap dist (n :: rest)) (hRoom : rest.length < rounds) :
    reserveNodesLoop track trackBitmap reserveDist rounds dist n = .ok rest := by
  induction rounds generalizing dist n rest with
  | zero => exact absurd hRoom (Nat.not_lt_zero _)
  | succ rounds ih =>
    obtain ⟨hStop, rfl⟩ | ⟨hStop, m, rest, hAhead, rfl, hRest, hSum⟩ :=
      loop_cases hTrack hNeeds hPos hFits
    · rw [reserveNodesLoop, if_pos hStop]
      rfl
    have hEdge : 0 ≤ track.distAhead trackBitmap n := hTrack.dist_nonneg _ _
    rw [lengthFits_cons_iff] at hLength
    have hLeft : rest.length < rounds := Nat.lt_of_succ_lt_succ hRoom
    rw [reserveNodesLoop_step hTrack hStop hAhead]
    obtain hSum | ⟨hOver, rfl⟩ := hSum
    · rw [wrap32_of_fits hSum, ih (by omega) hRest hLength hLeft]
      rfl
    · obtain hShort | ⟨k, hLast, hExit⟩ := hLength
      · have hZero : track.wayLength trackBitmap [m] = 0 := rfl
        obtain ⟨-, hHigh⟩ := hShort
        omega
      · obtain rfl := Option.some.inj hLast
        obtain ⟨rounds, rfl⟩ := Nat.exists_eq_succ_of_ne_zero (Nat.ne_zero_of_lt hLeft)
        rw [reserveNodesLoop, if_pos (.inr hExit)]
        rfl

theorem reserveNodesLoop_of_full (hFits : FitsInt reserveDist) (hPos : 0 ≤ dist)
    (hNeeds : track.Needs trackBitmap n (reserveDist - dist) (n :: rest))
    (hFull : rounds ≤ rest.length) :
    reserveNodesLoop track trackBitmap reserveDist rounds dist n =
      .error (.assertion .reserveNodes) := by
  induction rounds generalizing dist n rest with
  | zero => rfl
  | succ rounds ih =>
    obtain ⟨-, rfl⟩ | ⟨hStop, m, rest, hAhead, rfl, hRest, hSum⟩ :=
      loop_cases hTrack hNeeds hPos hFits
    · exact absurd hFull (Nat.not_succ_le_zero _)
    have hEdge : 0 ≤ track.distAhead trackBitmap n := hTrack.dist_nonneg _ _
    have hLeft : rounds ≤ rest.length := Nat.le_of_succ_le_succ hFull
    rw [reserveNodesLoop_step hTrack hStop hAhead]
    obtain hSum | ⟨-, rfl⟩ := hSum
    · rw [wrap32_of_fits hSum, ih (by omega) hRest hLeft]
      rfl
    · obtain rfl := Nat.le_zero.mp hLeft
      rfl

/-- Where the last sum overflows it comes out negative, and the loop goes past the last node. -/
theorem reserveNodesLoop_of_overflow (hInt : track.IntDist) (hFits : FitsInt reserveDist)
    (hPos : 0 ≤ dist) (hDist : FitsInt dist)
    (hNeeds : track.Needs trackBitmap n (reserveDist - dist) (n :: rest))
    (hOver : ¬track.LengthFits trackBitmap dist (n :: rest))
    (hOk : reserveNodesLoop track trackBitmap reserveDist rounds dist n = .ok l) :
    rest.length < l.length := by
  induction rounds generalizing dist n rest l with
  | zero => cases hOk
  | succ rounds ih =>
    obtain ⟨-, rfl⟩ | ⟨hStop, m, rest, hAhead, rfl, hRest, hSum⟩ :=
      loop_cases hTrack hNeeds hPos hFits
    · refine absurd (.inl ?_) hOver
      have hZero : track.wayLength trackBitmap [n] = 0 := rfl
      rwa [hZero, Int.add_zero]
    have hEdge : 0 ≤ track.distAhead trackBitmap n := hTrack.dist_nonneg _ _
    obtain ⟨-, hEdgeHigh⟩ := hInt n (track.way trackBitmap n)
    rw [lengthFits_cons_iff] at hOver
    rw [reserveNodesLoop_step hTrack hStop hAhead] at hOk
    obtain ⟨l', hLoop, rfl⟩ := exists_of_map_eq_ok hOk
    rw [List.length_cons, List.length_cons, Nat.add_lt_add_iff_right]
    obtain hSum | ⟨hLarge, rfl⟩ := hSum
    · rw [wrap32_of_fits hSum] at hLoop
      exact ih (by omega) hSum hRest hOver hLoop
    · have hNegative : wrap32 (dist + track.distAhead trackBitmap n) < 0 := by
        obtain ⟨-, hDistHigh⟩ := hDist
        exact wrap32_neg hLarge (by
          change dist + track.dist n (track.way trackBitmap n) < 2 ^ 32
          omega)
      have hGoesOn : ¬(wrap32 (dist + track.distAhead trackBitmap n) ≥ reserveDist ∨
          track.type m = .exit) := by
        rintro (hReached | hExit)
        · exact hStop (.inl (by omega))
        · exact hOver (.inr ⟨m, rfl, hExit⟩)
      cases rounds with
      | zero => cases hLoop
      | succ rounds =>
        obtain ⟨k, hAhead'⟩ : ∃ k, track.ahead trackBitmap m = some k :=
          hTrack.exists_ahead fun hExit => hGoesOn (Or.inr hExit)
        rw [reserveNodesLoop_step hTrack hGoesOn hAhead'] at hLoop
        obtain ⟨l'', -, rfl⟩ := exists_of_map_eq_ok hLoop
        exact Nat.zero_lt_succ _

theorem getReserveNodes_fault {fault : EngineerFault}
    (hFault : getReserveNodes track trackBitmap src reserveDist = .error fault) :
    fault = .assertion .reserveNodes := by
  rw [getReserveNodes] at hFault
  cases hRest : reserveNodesLoop track trackBitmap (reserveDist.tdiv 1000) (maxReserveSize - 1) 0
    src with
  | error fault' =>
    rw [hRest] at hFault
    obtain rfl := Except.error.inj hFault
    exact reserveNodesLoop_fault hTrack hRest
  | ok rest =>
    rw [hRest] at hFault
    cases hFault

theorem storeReserveNodes_inBounds {nodes : Array (Option Node)}
    (hSize : nodes.size = maxReserveSize) :
    storeReserveNodes track trackBitmap src reserveDist nodes ≠ .error .outOfBounds := by
  rw [storeReserveNodes_eq hSize]
  cases hReserve : getReserveNodes track trackBitmap src reserveDist with
  | error fault =>
    rw [getReserveNodes_fault hTrack hReserve]
    rintro ⟨⟩
  | ok l => rintro ⟨⟩

omit [Fintype Node] hTrack in
theorem fits_thousandth (hFits : FitsInt reserveDist) : FitsInt (reserveDist.tdiv 1000) := by
  obtain ⟨hLow, hHigh⟩ := hFits
  have hSign : Int.sign 1000 = 1 := rfl
  rw [FitsInt, Int.tdiv_eq_ediv, hSign]
  split_ifs <;> omega

theorem getReserveNodes_of_needs (hFits : FitsInt reserveDist)
    (hNeeds : track.Needs trackBitmap src (reserveDist.tdiv 1000) l)
    (hLength : track.LengthFits trackBitmap 0 l) (hRoom : l.length < maxReserveSize) :
    getReserveNodes track trackBitmap src reserveDist = .ok l := by
  obtain ⟨rest, rfl⟩ := List.head?_eq_some_iff.mp hNeeds.covers.head
  rw [← Int.sub_zero (reserveDist.tdiv 1000)] at hNeeds
  have hLeft : rest.length < maxReserveSize - 1 := Nat.lt_sub_of_add_lt hRoom
  rw [getReserveNodes, reserveNodesLoop_of_needs hTrack (fits_thousandth hFits) le_rfl hNeeds
    hLength hLeft]
  rfl

theorem getReserveNodes_of_full (hFits : FitsInt reserveDist)
    (hNeeds : track.Needs trackBitmap src (reserveDist.tdiv 1000) l)
    (hFull : maxReserveSize ≤ l.length) :
    getReserveNodes track trackBitmap src reserveDist = .error (.assertion .reserveNodes) := by
  obtain ⟨rest, rfl⟩ := List.head?_eq_some_iff.mp hNeeds.covers.head
  rw [← Int.sub_zero (reserveDist.tdiv 1000)] at hNeeds
  have hLeft : maxReserveSize - 1 ≤ rest.length := Nat.sub_le_of_le_add hFull
  rw [getReserveNodes, reserveNodesLoop_of_full hTrack (fits_thousandth hFits) le_rfl hNeeds hLeft]
  rfl

theorem getReserveNodes_of_overflow (hInt : track.IntDist) (hFits : FitsInt reserveDist)
    (hNeeds : track.Needs trackBitmap src (reserveDist.tdiv 1000) l)
    (hOver : ¬track.LengthFits trackBitmap 0 l)
    (hOk : getReserveNodes track trackBitmap src reserveDist = .ok l') :
    l.length < l'.length := by
  obtain ⟨rest, rfl⟩ := List.head?_eq_some_iff.mp hNeeds.covers.head
  rw [← Int.sub_zero (reserveDist.tdiv 1000)] at hNeeds
  obtain ⟨rest', hLoop, hRest⟩ := exists_of_bind_eq_ok hOk
  rw [← Except.ok.inj hRest]
  exact Nat.succ_lt_succ (reserveNodesLoop_of_overflow hTrack hInt (fits_thousandth hFits) le_rfl
    (by decide) hNeeds hOver hLoop)

/-- The nodes that are needed are stored, unless they just fill the array, or the length of the
way overflows. -/
theorem reserves_needed_iff (hInt : track.IntDist) (hFits : FitsInt reserveDist)
    {nodes : Array (Option Node)} (hSize : nodes.size = maxReserveSize) :
    ReservesNeeded track trackBitmap src reserveDist nodes ↔
      ∀ l, track.Needs trackBitmap src (reserveDist.tdiv 1000) l → maxReserveSize < l.length ∨
        l.length < maxReserveSize ∧ track.LengthFits trackBitmap 0 l := by
  have hStore : storeReserveNodes track trackBitmap src reserveDist nodes = _ :=
    storeReserveNodes_eq hSize
  constructor
  · intro hReserves l hNeeds
    by_contra hNot
    rw [not_or, not_and_or, not_lt, not_lt] at hNot
    obtain ⟨hLe, hBad⟩ := hNot
    have hOk := hReserves.stores l hNeeds hLe
    rw [hStore] at hOk
    obtain ⟨l', hReserve, hHeld⟩ := exists_of_map_eq_ok hOk
    have hSame : l'.length = l.length := congrArg Prod.fst hHeld
    obtain hFull | hOver := hBad
    · cases hReserve.symm.trans (getReserveNodes_of_full hTrack hFits hNeeds hFull)
    · have hLonger := getReserveNodes_of_overflow hTrack hInt hFits hNeeds hOver hReserve
      omega
  · intro hGood
    have hStores (l) (hNeeds : track.Needs trackBitmap src (reserveDist.tdiv 1000) l)
        (hLe : l.length ≤ maxReserveSize) :
        storeReserveNodes track trackBitmap src reserveDist nodes =
          .ok (l.length, holding nodes 0 l) := by
      obtain ⟨hRoom, hLength⟩ := (hGood l hNeeds).resolve_left (Nat.not_lt.mpr hLe)
      rw [hStore, getReserveNodes_of_needs hTrack hFits hNeeds hLength hRoom]
      rfl
    refine ⟨storeReserveNodes_inBounds hTrack hSize, hStores, ?_⟩
    intro fault hFault l hNeeds
    by_contra hLe
    cases hFault.symm.trans (hStores l hNeeds (Nat.not_lt.mp hLe))

end needed

theorem circle_laidOut : circle.LaidOut where
  toWellFormed := circle_wellFormed
  type_ne_none := by decide
  type_reverse := by decide
  edge_reverse := by
    unfold Track.Edge
    decide
  isTurnout _ hBranch := nomatch hBranch

/-- A distance of `k` edges needs one node more. -/
theorem circle_needs (trackBitmap : TrackBitmap) (k : Nat) (n : Bool × Bool) :
    ∃ l, circle.Needs trackBitmap n (100 * k) l ∧ l.length = k + 1 := by
  induction k generalizing n with
  | zero => exact ⟨[n], (needs_stop_iff (Or.inl (by simp))).mpr rfl, rfl⟩
  | succ k ih =>
    obtain ⟨l, hNeeds, hLength⟩ := ih (!n.1, n.2)
    have hNot : ¬((100 * (k + 1 : Nat) : Int) ≤ 0 ∨ circle.type n = .exit) := by
      rintro (hFar | hExit)
      · omega
      · cases hExit
    have hRest : (100 * (k + 1 : Nat) : Int) - 100 = 100 * k := by
      omega
    refine ⟨n :: l, (needs_step_iff hNot rfl).mpr ⟨l, rfl, ?_⟩, congrArg Nat.succ hLength⟩
    change circle.Needs trackBitmap (!n.1, n.2) ((100 * (k + 1 : Nat) : Int) - 100) l
    rwa [hRest]

theorem circle_intDist : circle.IntDist := fun _ _ => (by decide : FitsInt 100)

theorem reserves_needed_circle :
    ReservesNeeded circle 0 (false, false) 200000 (Array.replicate maxReserveSize none) := by
  refine (reserves_needed_iff circle_laidOut circle_intDist (by decide)
    Array.size_replicate).mpr fun l hNeeds => ?_
  obtain ⟨rest, rfl, hRest⟩ := (needs_step_iff (m := (true, false)) (by decide) rfl).mp hNeeds
  obtain ⟨last, rfl, hLast⟩ := (needs_step_iff (m := (false, false)) (by decide) rfl).mp hRest
  obtain rfl := (needs_stop_iff (by decide)).mp hLast
  exact .inr ⟨by decide, .inl (by decide)⟩

/-- A distance of 1500 millimetres needs 16 nodes, for which there is room. -/
theorem not_reserves_needed : circle.LaidOut ∧ circle.IntDist ∧
    ¬ReservesNeeded circle 0 (false, false) 1500000 (Array.replicate maxReserveSize none) := by
  refine ⟨circle_laidOut, circle_intDist, fun hReserves => ?_⟩
  obtain ⟨l, hNeeds, hLength⟩ := circle_needs 0 15 (false, false)
  have hOk := hReserves.stores l hNeeds hLength.le
  rw [storeReserveNodes_eq Array.size_replicate,
    getReserveNodes_of_full circle_laidOut (by decide) hNeeds hLength.ge] at hOk
  cases hOk

end TrainKernel.User
