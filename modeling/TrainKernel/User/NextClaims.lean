import TrainKernel.User.Layout

/-!
# The two sensors to claim

A train claims the sensor that it comes to along the turnouts, and a second one for the case that a
turnout has failed or the sensor misses the train.
-/

namespace TrainKernel.User

open Library.FirstFound

variable {Node : Type}

section expected

variable (track : Track Node) (trackBitmap : TrackBitmap)

/-- The first sensor along the turnouts from a node on, `none` if there is an exit before. -/
abbrev Track.SensorFrom : Node → Option Node → Prop :=
  First (track.ahead trackBitmap) fun n => track.type n = .sensor

def Track.SensorAfter (n : Node) (o : Option Node) : Prop :=
  ∃ m, track.ahead trackBitmap n = some m ∧ track.SensorFrom trackBitmap m o

abbrev Track.ForkFrom : Node → Option Node → Prop :=
  First (track.ahead trackBitmap) fun n => track.type n = .branch ∨ track.type n = .sensor

/-- The first branch or sensor after a node. -/
def Track.ForkAfter (n : Node) (o : Option Node) : Prop :=
  ∃ m, track.ahead trackBitmap n = some m ∧ track.ForkFrom trackBitmap m o

def Track.claimed (o : Option Node) : Int := o.elim (-1) track.idx

structure ExpectedClaims (prevNode : Node) (claim : SensorClaim) : Prop where
  primary : ∃ o, track.SensorAfter trackBitmap prevNode o ∧ claim.primary = track.claimed o
  secondary_branch : ∀ b, track.ForkAfter trackBitmap prevNode (some b) → track.type b = .branch →
    ∃ m o, track.otherWay trackBitmap b = some m ∧ track.SensorFrom trackBitmap m o ∧
      claim.secondary = track.claimed o
  secondary_sensor : ∀ s, track.ForkAfter trackBitmap prevNode (some s) → track.type s = .sensor →
    ∃ o, track.SensorAfter trackBitmap s o ∧ claim.secondary = track.claimed o

/-- Where a branch comes before a sensor, the way that its turnout is set leads to a sensor, and the
other way is an exit at once or leads to a sensor. -/
def LegsMeetSensors (prevNode : Node) : Prop :=
  ∀ b m, track.ForkAfter trackBitmap prevNode (some b) → track.type b = .branch →
    track.otherWay trackBitmap b = some m →
    (∃ s, track.SensorAfter trackBitmap b (some s)) ∧
      (track.type m = .exit ∨ ∃ s, track.SensorFrom trackBitmap m (some s))

end expected

variable {track : Track Node} {trackBitmap : TrackBitmap} {n m b s p prevNode : Node}
variable {o o' : Option Node} {fuel : Nat}

theorem Track.ForkAfter.unique (h : track.ForkAfter trackBitmap n o)
    (h' : track.ForkAfter trackBitmap n o') : o = o' := by
  obtain ⟨m, hAhead, hFirst⟩ := h
  obtain ⟨m', hAhead', hFirst'⟩ := h'
  obtain rfl := Option.some.inj (hAhead.symm.trans hAhead')
  exact hFirst.unique hFirst'

theorem Track.ForkAfter.sensorAfter (h : track.ForkAfter trackBitmap n (some b))
    (h' : track.SensorFrom trackBitmap b o) : track.SensorAfter trackBitmap n o := by
  obtain ⟨m, hAhead, hFirst⟩ := h
  exact ⟨m, hAhead, hFirst.resume (fun _ hSensor => Or.inr hSensor) h'⟩

theorem Track.ForkAfter.sensorAfter_none (h : track.ForkAfter trackBitmap n none) :
    track.SensorAfter trackBitmap n none := by
  obtain ⟨m, hAhead, hFirst⟩ := h
  exact ⟨m, hAhead, hFirst.none_of_subset fun _ hSensor => Or.inr hSensor⟩

theorem expected_exit (hFork : track.ForkAfter trackBitmap prevNode none) :
    ExpectedClaims track trackBitmap prevNode ⟨-1, -1⟩ where
  primary := ⟨none, hFork.sensorAfter_none, rfl⟩
  secondary_branch _ hFork' := nomatch hFork.unique hFork'
  secondary_sensor _ hFork' := nomatch hFork.unique hFork'

theorem expected_sensor (hFork : track.ForkAfter trackBitmap prevNode (some s))
    (hSensor : track.type s = .sensor) (hNext : track.SensorAfter trackBitmap s o) :
    ExpectedClaims track trackBitmap prevNode ⟨track.idx s, track.claimed o⟩ where
  primary := ⟨some s, hFork.sensorAfter (.here hSensor), rfl⟩
  secondary_branch b hFork' hBranch := by
    obtain rfl := Option.some.inj (hFork.unique hFork')
    cases hSensor.symm.trans hBranch
  secondary_sensor s' hFork' _ := by
    obtain rfl := Option.some.inj (hFork.unique hFork')
    exact ⟨o, hNext, rfl⟩

theorem expected_branch (hFork : track.ForkAfter trackBitmap prevNode (some b))
    (hBranch : track.type b = .branch) (hFirst : track.SensorAfter trackBitmap b o)
    (hOther : track.otherWay trackBitmap b = some m)
    (hSecond : track.SensorFrom trackBitmap m o') :
    ExpectedClaims track trackBitmap prevNode ⟨track.claimed o, track.claimed o'⟩ where
  primary := by
    obtain ⟨p, hAhead, hFirst⟩ := hFirst
    have hNot : track.type b ≠ .sensor := by
      rw [hBranch]
      decide
    exact ⟨o, hFork.sensorAfter (.later hNot hAhead hFirst), rfl⟩
  secondary_branch b' hFork' _ := by
    obtain rfl := Option.some.inj (hFork.unique hFork')
    exact ⟨m, o', hOther, hSecond, rfl⟩
  secondary_sensor s hFork' hSensor := by
    obtain rfl := Option.some.inj (hFork.unique hFork')
    cases hSensor.symm.trans hBranch

variable [Fintype Node]

theorem Track.SensorOnCycles.height_lt_trackMax (hCycles : track.SensorOnCycles)
    (hTrack : track.LaidOut) (n : Node) : height track.Unsensed n < trackMax := by
  have hCard := height_lt_card hCycles n
  rw [Nat.card_eq_fintype_card] at hCard
  exact hCard.trans_le hTrack.card_le

theorem Track.SensorOnCycles.exists_sensorFrom (hCycles : track.SensorOnCycles) (n : Node) :
    ∃ o, track.SensorFrom trackBitmap n o :=
  exists_first (hCycles.mono fun _ _ h => ⟨h.1, track.edge_ahead h.2⟩) n

theorem Track.SensorOnCycles.exists_forkFrom (hCycles : track.SensorOnCycles) (n : Node) :
    ∃ o, track.ForkFrom trackBitmap n o :=
  exists_first (hCycles.mono fun _ _ h => ⟨fun hSensor => h.1 (Or.inr hSensor),
    track.edge_ahead h.2⟩) n

section loops

variable (hTrack : track.LaidOut) (hCycles : track.SensorOnCycles)
include hTrack hCycles

theorem getNextSensorLoop_eq (hAhead : track.ahead trackBitmap n = some m)
    (hFirst : track.SensorFrom trackBitmap m o) (hFuel : height track.Unsensed m + 1 < fuel) :
    getNextSensorLoop track trackBitmap fuel n = .ok o := by
  induction hFirst generalizing fuel n with
  | here hSensor =>
    obtain ⟨fuel, rfl⟩ := Nat.exists_eq_add_one_of_ne_zero (Nat.ne_zero_of_lt hFuel)
    rw [getNextSensorLoop, hTrack.getNextNode_eq, hAhead]
    exact if_pos hSensor
  | nowhere hNot hEnd =>
    obtain ⟨fuel, rfl⟩ : ∃ k, fuel = k + 1 + 1 := ⟨fuel - 2, by omega⟩
    rw [getNextSensorLoop, hTrack.getNextNode_eq, hAhead]
    apply (if_neg hNot).trans
    rw [getNextSensorLoop, hTrack.getNextNode_eq, hEnd]
    rfl
  | later hNot hNext _ ih =>
    obtain ⟨fuel, rfl⟩ := Nat.exists_eq_add_one_of_ne_zero (Nat.ne_zero_of_lt hFuel)
    have hLower := height_lt hCycles ⟨hNot, Track.edge_ahead hNext⟩
    rw [getNextSensorLoop, hTrack.getNextNode_eq, hAhead]
    apply (if_neg hNot).trans
    exact ih hNext (by omega)

theorem getNextSensor_eq (hAfter : track.SensorAfter trackBitmap n o) :
    getNextSensor track trackBitmap n = .ok o := by
  obtain ⟨m, hAhead, hFirst⟩ := hAfter
  have hHeight := hCycles.height_lt_trackMax hTrack m
  apply getNextSensorLoop_eq hTrack hCycles hAhead hFirst
  rw [walkLimit]
  omega

theorem sensorFrom_eq (hFirst : track.SensorFrom trackBitmap m o) :
    sensorFrom track trackBitmap m = .ok o := by
  rw [sensorFrom]
  cases hFirst with
  | here hSensor => exact if_pos hSensor
  | nowhere hNot hEnd =>
    apply (if_neg hNot).trans
    rw [getNextSensor, walkLimit, getNextSensorLoop, hTrack.getNextNode_eq, hEnd]
    rfl
  | later hNot hNext hRest =>
    apply (if_neg hNot).trans
    exact getNextSensor_eq hTrack hCycles ⟨_, hNext, hRest⟩

theorem branchClaims_eq (hBranch : track.type b = .branch)
    (hAhead : track.ahead trackBitmap b = some p) (hFirst : track.SensorFrom trackBitmap p o)
    (hOther : track.otherWay trackBitmap b = some s)
    (hSecond : track.SensorFrom trackBitmap s o') :
    branchClaims track trackBitmap b = (do
      let primary ← known .claimedNode o
      if track.type s = .exit then return ⟨track.idx primary, -1⟩
      else
        let secondary ← deref .other o'
        return ⟨track.idx primary, track.idx secondary⟩) := by
  have hDest : track.dest b (if decide (track.curved trackBitmap b) = true then dirStraight
    else dirCurved) = some s := by simpa [Track.otherWay] using hOther
  rw [branchClaims, hTrack.getNextNode_eq, hAhead, hTrack.exists_curved hBranch]
  dsimp only [bind, Except.bind, known]
  rw [sensorFrom_eq hTrack hCycles hFirst, hDest]
  dsimp only
  rw [sensorFrom_eq hTrack hCycles hSecond]

/-- What the function does with the first branch or sensor that it finds. -/
def forkClaims (track : Track Node) (trackBitmap : TrackBitmap) :
    Option Node → Except EngineerFault SensorClaim
  | none => return ⟨-1, -1⟩
  | some n =>
    if track.type n = .branch then branchClaims track trackBitmap n
    else do
      let secondary ← getNextSensor track trackBitmap n
      return ⟨track.idx n, track.claimed secondary⟩

theorem getNextClaimsLoop_eq (hAhead : track.ahead trackBitmap n = some m)
    (hFirst : track.ForkFrom trackBitmap m o) (hFuel : height track.Unsensed m < fuel) :
    getNextClaimsLoop track trackBitmap fuel n = forkClaims track trackBitmap o := by
  induction hFirst generalizing fuel n with
  | @here m hFork =>
    obtain ⟨fuel, rfl⟩ := Nat.exists_eq_add_one_of_ne_zero (Nat.ne_zero_of_lt hFuel)
    rw [getNextClaimsLoop, hTrack.getNextNode_eq, hAhead, forkClaims]
    dsimp only [bind, Except.bind, known]
    rcases hFork with hBranch | hSensor
    · rw [hBranch, if_pos rfl]
    · rw [hSensor, if_neg (by decide)]
      dsimp only
      cases getNextSensor track trackBitmap m with
      | error => rfl
      | ok secondary => cases secondary <;> rfl
  | nowhere hNot hEnd =>
    obtain ⟨fuel, rfl⟩ := Nat.exists_eq_add_one_of_ne_zero (Nat.ne_zero_of_lt hFuel)
    have hExit := hTrack.ahead_eq_none_iff.mp hEnd
    rw [getNextClaimsLoop, hTrack.getNextNode_eq, hAhead]
    dsimp only [bind, Except.bind, known]
    rw [hExit]
    rfl
  | @later m _ _ hNot hNext _ ih =>
    obtain ⟨fuel, rfl⟩ := Nat.exists_eq_add_one_of_ne_zero (Nat.ne_zero_of_lt hFuel)
    have hLower := height_lt hCycles ⟨fun hSensor => hNot (Or.inr hSensor), Track.edge_ahead hNext⟩
    have hMerge : track.type m = .merge := by
      have hEnter := hTrack.type_ne_enter (Track.edge_ahead hAhead)
      have hNone := hTrack.type_ne_none m
      have hExit : track.type m ≠ .exit := fun hExit =>
        nomatch (Track.ahead_exit hExit).symm.trans hNext
      cases hType : track.type m <;> simp_all
    rw [getNextClaimsLoop, hTrack.getNextNode_eq, hAhead]
    dsimp only [bind, Except.bind, known]
    rw [hMerge]
    exact ih hNext (by omega)

/-- With enough fuel the function always comes to the first branch or sensor, or to an exit. -/
theorem getNextClaims_eq (hFirst : track.ForkAfter trackBitmap n o) :
    getNextClaims track trackBitmap (some n) = forkClaims track trackBitmap o := by
  obtain ⟨m, hAhead, hFirst⟩ := hFirst
  have hHeight := hCycles.height_lt_trackMax hTrack m
  exact getNextClaimsLoop_eq hTrack hCycles hAhead hFirst (by rw [walkLimit]; omega)

theorem branchClaims_eq_ok_iff {claim : SensorClaim} (hBranch : track.type b = .branch)
    (hAhead : track.ahead trackBitmap b = some p) (hFirst : track.SensorFrom trackBitmap p o)
    (hOther : track.otherWay trackBitmap b = some m)
    (hSecond : track.SensorFrom trackBitmap m o') :
    branchClaims track trackBitmap b = .ok claim ↔ o.isSome ∧
      (track.type m = .exit ∨ o'.isSome) ∧ claim = ⟨track.claimed o, track.claimed o'⟩ := by
  rw [branchClaims_eq hTrack hCycles hBranch hAhead hFirst hOther hSecond]
  cases o with
  | none => exact iff_of_false nofun fun h => nomatch h.1
  | some primary =>
    by_cases hExit : track.type m = .exit
    · obtain rfl : o' = none := hSecond.unique (.nowhere (by simp [hExit]) (track.ahead_exit hExit))
      simp [known, bind, Except.bind, hExit, Track.claimed, pure, Except.pure, eq_comm]
    · cases o' with
      | none => simp [known, deref, bind, Except.bind, hExit]
      | some secondary =>
        simp [known, deref, bind, Except.bind, hExit, Track.claimed, pure, Except.pure, eq_comm]

theorem branch_claims_iff (hFork : track.ForkAfter trackBitmap prevNode (some b))
    (hBranch : track.type b = .branch) :
    (∃ claim, branchClaims track trackBitmap b = .ok claim ∧
      ExpectedClaims track trackBitmap prevNode claim) ↔
      LegsMeetSensors track trackBitmap prevNode := by
  obtain ⟨p, hAhead⟩ : ∃ p, track.ahead trackBitmap b = some p :=
    hTrack.exists_ahead (by rw [hBranch]; decide)
  obtain ⟨m, hOther⟩ : ∃ m, track.otherWay trackBitmap b = some m := hTrack.exists_otherWay hBranch
  obtain ⟨o, hFirst⟩ : ∃ o, track.SensorFrom trackBitmap p o := hCycles.exists_sensorFrom p
  obtain ⟨o', hSecond⟩ : ∃ o, track.SensorFrom trackBitmap m o := hCycles.exists_sensorFrom m
  constructor
  · rintro ⟨claim, hClaim, -⟩ b' m' hFork' - hOther'
    rw [branchClaims_eq_ok_iff hTrack hCycles hBranch hAhead hFirst hOther hSecond] at hClaim
    obtain ⟨hPrimary, hEnd, -⟩ := hClaim
    obtain rfl := Option.some.inj (hFork.unique hFork')
    obtain rfl := Option.some.inj (hOther.symm.trans hOther')
    obtain ⟨x, rfl⟩ := Option.isSome_iff_exists.mp hPrimary
    refine ⟨⟨x, p, hAhead, hFirst⟩, hEnd.imp_right fun hSome => ?_⟩
    obtain ⟨y, rfl⟩ := Option.isSome_iff_exists.mp hSome
    exact ⟨y, hSecond⟩
  · intro hLegs
    obtain ⟨⟨x, p', hAhead', hFirst'⟩, hEnd⟩ := hLegs b m hFork hBranch hOther
    obtain rfl := Option.some.inj (hAhead.symm.trans hAhead')
    obtain rfl := hFirst.unique hFirst'
    refine ⟨⟨track.idx x, track.claimed o'⟩, ?_,
      expected_branch hFork hBranch ⟨p, hAhead, hFirst⟩ hOther hSecond⟩
    rw [branchClaims_eq_ok_iff hTrack hCycles hBranch hAhead hFirst hOther hSecond]
    refine ⟨rfl, hEnd.imp_right fun hSome => ?_, rfl⟩
    obtain ⟨y, hSecond'⟩ := hSome
    rw [hSecond.unique hSecond']
    rfl

/-- The function returns what is expected exactly if the legs of the branch meet sensors. -/
theorem next_claims_iff (hSensor : track.type prevNode = .sensor) :
    (∃ claim, getNextClaims track trackBitmap (some prevNode) = .ok claim ∧
      ExpectedClaims track trackBitmap prevNode claim) ↔
      LegsMeetSensors track trackBitmap prevNode := by
  obtain ⟨m, hAhead⟩ : ∃ m, track.ahead trackBitmap prevNode = some m :=
    hTrack.exists_ahead (by rw [hSensor]; decide)
  obtain ⟨o, hFirst⟩ : ∃ o, track.ForkFrom trackBitmap m o := hCycles.exists_forkFrom m
  have hFork : track.ForkAfter trackBitmap prevNode o := ⟨m, hAhead, hFirst⟩
  rw [getNextClaims_eq hTrack hCycles hFork]
  cases o with
  | none =>
    exact iff_of_true ⟨_, rfl, expected_exit hFork⟩ fun b m hFork' => nomatch hFork.unique hFork'
  | some b =>
    rw [forkClaims]
    rcases hFirst.of_some with hBranch | hSensor
    · rw [if_pos hBranch]
      exact branch_claims_iff hTrack hCycles hFork hBranch
    · have hBranch : track.type b ≠ .branch := by
        rw [hSensor]
        decide
      obtain ⟨p, hAhead⟩ : ∃ p, track.ahead trackBitmap b = some p :=
        hTrack.exists_ahead (by rw [hSensor]; decide)
      obtain ⟨o, hNext⟩ : ∃ o, track.SensorFrom trackBitmap p o := hCycles.exists_sensorFrom p
      have hAfter : track.SensorAfter trackBitmap b o := ⟨p, hAhead, hNext⟩
      rw [if_neg hBranch, getNextSensor_eq hTrack hCycles hAfter]
      refine iff_of_true ⟨_, rfl, expected_sensor hFork hSensor hAfter⟩ ?_
      intro b' m hFork' hBranch'
      obtain rfl := Option.some.inj (hFork.unique hFork')
      exact absurd hBranch' hBranch

end loops

/-- An entrance, a sensor, a branch, a sensor on its straight leg and two exits; the odd nodes are
the same places in the other direction. -/
def siding : Track (Fin 12) where
  idx n := n.val
  type := ![.enter, .exit, .sensor, .sensor, .branch, .merge, .sensor, .sensor, .exit, .enter,
    .exit, .enter]
  num _ := 155
  reverse := ![1, 0, 3, 2, 5, 4, 7, 6, 9, 8, 11, 10]
  dest n d :=
    if d = dirStraight then
      ![some 2, none, some 4, some 1, some 6, some 3, some 8, some 5, none, some 7, none, some 5] n
    else if n = 4 then some 10 else none
  dist _ _ := 100

theorem siding_laidOut : siding.LaidOut where
  idx_injective n m h := Fin.ext (Int.ofNat_inj.mp h)
  reverse_involutive := show ∀ n, siding.reverse (siding.reverse n) = n by decide
  reverse_ne := by decide
  dest_isSome := by decide
  dest_ne := by decide
  dist_nonneg _ _ := (by decide : (0 : Int) ≤ 100)
  card_le := by decide
  type_ne_none := by decide
  type_reverse := by decide
  edge_reverse := by
    unfold Track.Edge
    decide
  isTurnout n _ := Or.inr (by decide : (153 : Int) ≤ 155 ∧ (155 : Int) ≤ 156)

theorem siding_sensorOnCycles : siding.SensorOnCycles := by
  refine acyclic_of_rank (fun n => if n.val % 2 = 0 then n.val else 20 - n.val) ?_
  unfold Track.Unsensed Track.Edge
  decide

/-- The branch leads on to the sensor 6, and the other way is the exit 10. -/
theorem next_claims_siding : ∃ claim, getNextClaims siding 0 (some 2) = .ok claim ∧
    ExpectedClaims siding 0 2 claim := by
  apply (next_claims_iff siding_laidOut siding_sensorOnCycles rfl).mpr
  intro b m hFork _ hOther
  have hFirst : siding.ForkAfter 0 2 (some 4) := ⟨4, by decide, .here (Or.inl rfl)⟩
  obtain rfl := Option.some.inj (hFirst.unique hFork)
  have hExit : siding.otherWay 0 4 = some 10 := by decide
  obtain rfl := Option.some.inj (hExit.symm.trans hOther)
  exact ⟨⟨6, 6, by decide, .here rfl⟩, Or.inl rfl⟩

/-- If the turnout is set to the exit, the assertion that there is a primary sensor fails. -/
theorem next_claims_fails : siding.LaidOut ∧ siding.SensorOnCycles ∧ siding.type 2 = .sensor ∧
    ¬∃ claim, getNextClaims siding (-1) (some 2) = .ok claim ∧
      ExpectedClaims siding (-1) 2 claim := by
  have hFails : getNextClaims siding (-1) (some 2) = .error (.assertion .claimedNode) := by decide
  refine ⟨siding_laidOut, siding_sensorOnCycles, rfl, ?_⟩
  rintro ⟨claim, hClaim, -⟩
  cases hFails.symm.trans hClaim

end TrainKernel.User
