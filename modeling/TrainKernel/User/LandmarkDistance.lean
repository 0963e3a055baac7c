import TrainKernel.User.Layout

/-!
# The distance to a landmark

The walk along the turnouts either comes to a landmark or runs out at an exit or in a circle.
`distanceBetween` follows it for as many edges as there are landmarks on a track of the largest
size; a train that comes back over the same rails can need more. The sum and the distance in
micrometres are machine integers.
-/

namespace TrainKernel.User

open Library.Int32

variable {Node : Type} {track : Track Node} {trackBitmap : TrackBitmap} {dst n m : Node}
variable {k k' rounds : Nat} {d d' total : Int}

/-- The walk from a node comes to `dst` for the first time after `k` edges with the sum `d`. -/
inductive Track.Meets (track : Track Node) (trackBitmap : TrackBitmap) (dst : Node) :
    Node → Nat → Int → Prop
  | arrive {n : Node} : track.ahead trackBitmap n = some dst →
      Meets track trackBitmap dst n 1 (track.distAhead trackBitmap n)
  | later {n m : Node} {k : Nat} {d : Int} : track.ahead trackBitmap n = some m → m ≠ dst →
      Meets track trackBitmap dst m k d →
      Meets track trackBitmap dst n (k + 1) (track.distAhead trackBitmap n + d)

theorem Track.Meets.unique (h : track.Meets trackBitmap dst n k d)
    (h' : track.Meets trackBitmap dst n k' d') : k = k' ∧ d = d' := by
  induction h generalizing k' d' with
  | arrive hAhead =>
    cases h' with
    | arrive => exact ⟨rfl, rfl⟩
    | later hAhead' hNe => exact absurd (Option.some.inj (hAhead'.symm.trans hAhead)) hNe
  | later hAhead hNe _ ih =>
    cases h' with
    | arrive hAhead' => exact absurd (Option.some.inj (hAhead.symm.trans hAhead')) hNe
    | later hAhead' _ hRest =>
      obtain rfl := Option.some.inj (hAhead.symm.trans hAhead')
      obtain ⟨rfl, rfl⟩ := ih hRest
      exact ⟨rfl, rfl⟩

section laidOut

variable [DecidableEq Node] [Fintype Node] (hTrack : track.LaidOut)
include hTrack

/-- One round of the loop, on a track whose turnouts are all known. -/
theorem distanceLoop_succ : distanceLoop track trackBitmap dst (rounds + 1) n total =
    match track.ahead trackBitmap n with
    | none => .ok (-1)
    | some m =>
      if m = dst then .ok (wrap32 (1000 * wrap32 (total + track.distAhead trackBitmap n)))
      else distanceLoop track trackBitmap dst rounds m
        (wrap32 (total + track.distAhead trackBitmap n)) := by
  rw [distanceLoop, Track.ahead]
  rcases eq_or_ne (track.type n) .exit with hExit | hExit
  · rw [if_pos hExit, getNextEdge, hExit]
    rfl
  · rw [if_neg hExit, hTrack.getNextEdge_eq hExit]
    rfl

theorem distanceLoop_of_meets (h : track.Meets trackBitmap dst n k d) (hRounds : k ≤ rounds) :
    distanceLoop track trackBitmap dst rounds n total = .ok (wrap32 (1000 * (total + d))) := by
  induction h generalizing rounds total with
  | arrive hAhead =>
    obtain ⟨rounds, rfl⟩ := Nat.exists_eq_add_of_le' hRounds
    rw [distanceLoop_succ hTrack, hAhead]
    dsimp only
    rw [if_pos rfl, wrap32_mul_wrap32]
  | later hAhead hNe _ ih =>
    obtain ⟨rounds, rfl⟩ := Nat.exists_eq_add_of_le' (Nat.le_of_add_left_le hRounds)
    rw [distanceLoop_succ hTrack, hAhead]
    dsimp only
    rw [if_neg hNe, ih (Nat.le_of_succ_le_succ hRounds), ← wrap32_mul_wrap32, wrap32_wrap32_add,
      wrap32_mul_wrap32, Int.add_assoc]

theorem distanceLoop_of_not_meets
    (h : ∀ k d, track.Meets trackBitmap dst n k d → rounds < k) :
    distanceLoop track trackBitmap dst rounds n total = .ok (-1) := by
  induction rounds generalizing n total with
  | zero => rfl
  | succ rounds ih =>
    rw [distanceLoop_succ hTrack]
    cases hAhead : track.ahead trackBitmap n with
    | none => rfl
    | some m =>
      dsimp only
      split_ifs with hFound
      · have hLess := h 1 _ (.arrive (hFound ▸ hAhead))
        omega
      · apply ih
        intro k d hMeets
        exact Nat.lt_of_succ_lt_succ (h (k + 1) _ (.later hAhead hFound hMeets))

end laidOut

/-- What is returned is the distance of the walk, or -1 if it never comes to the landmark. -/
structure Track.DistanceExact [DecidableEq Node] (track : Track Node) (trackBitmap : TrackBitmap)
    (src dst : Node) : Prop where
  meets : ∀ k d, track.Meets trackBitmap dst src k d →
    distanceBetween track trackBitmap (some src) (some dst) = .ok (1000 * d)
  misses : (∀ k d, ¬track.Meets trackBitmap dst src k d) →
    distanceBetween track trackBitmap (some src) (some dst) = .ok (-1)

theorem distance_exact_iff [DecidableEq Node] [Fintype Node] (track : Track Node)
    (hTrack : track.LaidOut) (trackBitmap : TrackBitmap) (src dst : Node) :
    track.DistanceExact trackBitmap src dst ↔
      ∀ k d, track.Meets trackBitmap dst src k d → k ≤ trackMax / 2 ∧ FitsInt (1000 * d) := by
  have hNearby (k) (d) (h : track.Meets trackBitmap dst src k d) (hNear : k ≤ trackMax / 2) :
      distanceBetween track trackBitmap (some src) (some dst) = .ok (wrap32 (1000 * d)) := by
    have hLoop : distanceLoop track trackBitmap dst (trackMax / 2) src 0 = _ :=
      distanceLoop_of_meets hTrack h hNear
    rwa [Int.zero_add] at hLoop
  constructor
  · rintro ⟨hMeets, -⟩ k d h
    have hExact := hMeets k d h
    rcases Nat.lt_or_ge (trackMax / 2) k with hFar | hNear
    case inr =>
      rw [hNearby k d h hNear] at hExact
      exact ⟨hNear, wrap32_eq_self_iff.mp (Except.ok.inj hExact)⟩
    have hMissed : distanceBetween track trackBitmap (some src) (some dst) = .ok (-1) := by
      apply distanceLoop_of_not_meets hTrack
      intro k' d' h'
      rw [(h'.unique h).1]
      exact hFar
    have hSame := Except.ok.inj (hMissed.symm.trans hExact)
    omega
  · intro hNear
    constructor
    · intro k d h
      obtain ⟨hEdges, hFits⟩ := hNear k d h
      rw [hNearby k d h hEdges, wrap32_of_fits hFits]
    · intro hNever
      apply distanceLoop_of_not_meets hTrack
      intro k d h
      exact absurd h (hNever k d)

def balloonPlace (i : Nat) (back : Bool) : Option (Fin 39 × Bool) :=
  (List.finRange 39)[i]?.map (·, back)

/-- From the entrance 0 past 35 sensors to the branch 36, around a loop with the sensors 37 and 38,
and back over the same rails to the exit. -/
def balloon : Track (Fin 39 × Bool) where
  idx n := 2 * n.1.val + n.2.toNat
  type n :=
    if n.1.val = 0 then if n.2 then .exit else .enter
    else if n.1.val = 36 then if n.2 then .merge else .branch
    else .sensor
  num _ := 155
  reverse n := (n.1, !n.2)
  dest n d :=
    if n.2 then if n.1.val = 0 then none else balloonPlace (n.1.val - 1) true
    else if n.1.val = 36 ∧ d = dirCurved then balloonPlace 38 true
    else if n.1.val = 38 then balloonPlace 36 true
    else balloonPlace (n.1.val + 1) false
  dist _ _ := 100

theorem balloon_edge_reverse : ∀ n, ∀ d ∈ balloon.edges n, ∀ m ∈ balloon.dest n d,
    ∃ d' ∈ balloon.edges (balloon.reverse m),
      balloon.dest (balloon.reverse m) d' = some (balloon.reverse n) := by
  decide +kernel

theorem balloon_laidOut : balloon.LaidOut where
  idx_injective := by
    rintro ⟨i, a⟩ ⟨j, b⟩ hSame
    have hIdx : 2 * (i.val : Int) + a.toNat = 2 * j.val + b.toNat := hSame
    have ha := Bool.toNat_le a
    have hb := Bool.toNat_le b
    have hPlace : i = j := Fin.ext (by omega)
    have hBack : a.toNat = b.toNat := by omega
    have hDirection : a = b := by
      revert hBack
      cases a <;> cases b <;> decide
    rw [hPlace, hDirection]
  reverse_involutive n := by simp [balloon]
  reverse_ne := by decide +kernel
  dest_isSome := by decide +kernel
  dest_ne := by
    have hNe : ∀ n d, ∀ m ∈ balloon.dest n d, m ≠ n ∧ m ≠ balloon.reverse n := by decide +kernel
    intro n d m hDest
    exact hNe n d m hDest
  dist_nonneg _ _ := (by decide : (0 : Int) ≤ 100)
  card_le := by decide +kernel
  type_ne_none := by decide +kernel
  type_reverse := by decide +kernel
  edge_reverse := by
    rintro n m ⟨d, hd, hDest⟩
    exact balloon_edge_reverse n d hd m hDest
  isTurnout _ _ := Or.inr (by decide : (153 : Int) ≤ 155 ∧ (155 : Int) ≤ 156)

def balloonEntrance : Fin 39 × Bool := (⟨0, Nat.zero_lt_succ 38⟩, false)
def balloonExit : Fin 39 × Bool := (⟨0, Nat.zero_lt_succ 38⟩, true)

def firstSensor : Fin 39 × Bool := (⟨1, Nat.succ_lt_succ (Nat.zero_lt_succ 37)⟩, false)

def secondSensor : Fin 39 × Bool :=
  (⟨2, Nat.succ_lt_succ (Nat.succ_lt_succ (Nat.zero_lt_succ 36))⟩, false)

/-- Two edges lead from the entrance to the second sensor. -/
theorem distance_exact_iff_balloon : balloon.LaidOut ∧
    balloon.DistanceExact 0 balloonEntrance secondSensor := by
  refine ⟨balloon_laidOut, (distance_exact_iff balloon balloon_laidOut 0 _ _).mpr ?_⟩
  intro k d h
  have hMeets : balloon.Meets 0 secondSensor balloonEntrance 2 200 :=
    .later (m := firstSensor) rfl (by decide) (.arrive rfl)
  obtain ⟨rfl, rfl⟩ := h.unique hMeets
  decide

/-- The exit is 75 edges behind the entrance, and it is not found. -/
theorem not_distance_exact :
    balloon.LaidOut ∧ ¬balloon.DistanceExact 0 balloonEntrance balloonExit := by
  refine ⟨balloon_laidOut, ?_⟩
  rintro ⟨hMeets, -⟩
  have hMissed :
      distanceBetween balloon 0 (some balloonEntrance) (some balloonExit) = .ok (-1) := by
    decide +kernel
  have hFound : distanceLoop balloon 0 balloonExit 75 balloonEntrance 0 = .ok 7500000 := by
    decide +kernel
  have hNever : ∀ k d, balloon.Meets 0 balloonExit balloonEntrance k d → 75 < k := by
    intro k d h
    have hSame := Except.ok.inj (hMissed.symm.trans (hMeets k d h))
    omega
  cases hFound.symm.trans (distanceLoop_of_not_meets balloon_laidOut hNever)

end TrainKernel.User
