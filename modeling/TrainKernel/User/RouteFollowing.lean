import TrainKernel.User.SensorClaims

/-!
# Following the route

The book of a go command stays with the engineer until the next one. A path of a single node makes
no book, so that the engineer opens the book that it has at the first page again.
-/

namespace TrainKernel.User

open Library.Int32 Library.Outcome

variable {Node : Type} {world : EngineerWorld Node} {around : Surroundings Node}
variable {t : EngineerTurn Node} {tid : Nat} {index : Int}

/-- What `ebook.enstructs[eat++]` gives, if the engineer asks for it. -/
def Engineer.nextOf (e : Engineer Node) : List (Enstruction Node) :=
  if e.eat < e.ebook.length ∧ 0 ≤ e.eat ∧ e.eat < maxEbookLength then
    [e.ebook.enstructs e.eat.toNat]
  else []

/-- The end of `go`: the engineer follows the book, if there is anything left in it. -/
def followBook (world : EngineerWorld Node) (t : EngineerTurn Node) :
    Except EngineerFault (EngineerTurn Node) :=
  if t.engineer.eat < t.engineer.ebook.length then do
    let (ent, t) ← nextEnstruction t
    setTargetFromEnstruction world t ent
  else return t

theorem nextEnstruction_eq : nextEnstruction t =
    if 0 ≤ t.engineer.eat ∧ t.engineer.eat < maxEbookLength then
      .ok (t.engineer.ebook.enstructs t.engineer.eat.toNat,
        { t with engineer := { t.engineer with eat := t.engineer.eat + 1 } })
    else .error .outOfBounds := rfl

theorem followBook_executes : Yields (fun t' => t.engineer.nextOf = [] ∧ t' = t ∨
    ∃ ent t₁, t.engineer.nextOf = [ent] ∧ setTargetFromEnstruction world t₁ ent = .ok t')
    (followBook world t) := by
  rw [followBook, Engineer.nextOf, nextEnstruction_eq]
  refine EndsWell.ite (fun hMore => ?_) fun hDone => EndsWell.pure (Or.inl ?_)
  · by_cases hBounds : 0 ≤ t.engineer.eat ∧ t.engineer.eat < maxEbookLength
    · rw [if_pos hBounds, if_pos ⟨hMore, hBounds⟩]
      exact Yields.of_eq fun t' hTarget => Or.inr ⟨_, _, rfl, hTarget⟩
    · rw [if_neg hBounds]
      exact Yields.error
  · rw [if_neg fun hBoth => hDone hBoth.1]
    exact ⟨rfl, rfl⟩

/-- The enstruction is one of the book. -/
def Ebook.Has (book : Ebook Node) (ent : Enstruction Node) : Prop :=
  ∃ i : Nat, i < book.length ∧ ent = book.enstructs i

theorem Engineer.nextOf_has {e : Engineer Node} {ent : Enstruction Node} (h : ent ∈ e.nextOf) :
    0 < e.ebook.length ∧ e.ebook.Has ent := by
  rw [nextOf] at h
  split_ifs at h with hNext
  · rw [List.mem_singleton] at h
    exact ⟨by omega, e.eat.toNat, by omega, h⟩
  · cases h

variable [DecidableEq Node]

/-- The path for a go command, if there is one. -/
def goPath (world : EngineerWorld Node) (around : Surroundings Node) (e : Engineer Node)
    (index : Int) : Except EngineerFault (Option (PathBuffer Node)) := do
  let src ← deref .prevNode e.prevNode
  match goRoute world around src (world.gTrack index) with
  | .error fault => .error (.route fault)
  | .ok (ret, pb) => return if ret < 0 then none else some pb

/-- The engineer after a go command, before it follows its book. -/
def openBook (world : EngineerWorld Node) (around : Surroundings Node) (e : Engineer Node)
    (index : Int) : Except EngineerFault (Engineer Node) := do
  match ← goPath world around e index with
  | none => return { e with ebook := initEbook e.ebook }
  | some pb =>
    let (_, ebook) ← makeEbook world.track pb e.ebook
    return { e with ebook := ebook, eat := 0 }

omit [DecidableEq Node] in
theorem initEbook_nextOf (e : Engineer Node) :
    Engineer.nextOf { e with ebook := initEbook e.ebook } = [] := by
  rw [Engineer.nextOf, if_neg]
  rintro ⟨hMore, hPos, -⟩
  exact absurd (hPos.trans_lt hMore) (lt_irrefl 0)

theorem goPath_eq {src : Node} {ret : Int} {pb : PathBuffer Node}
    (hSrc : t.engineer.prevNode = some src)
    (hRoute : goRoute world around src (world.gTrack index) = .ok (ret, pb)) :
    goPath world around t.engineer index = .ok (if ret < 0 then none else some pb) := by
  rw [goPath, hSrc]
  change (match goRoute world around src (world.gTrack index) with
    | .error fault => _
    | .ok (ret, pb) => _) = _
  rw [hRoute]
  rfl

omit [DecidableEq Node] in
/-- Every enstruction that the engineer passes on is the next one of its book. -/
theorem followBook_ebook : Yields (fun t' => t'.engineer.ebook = t.engineer.ebook)
    (followBook world t) := by
  refine EndsWell.ite (fun _ => ?_) fun _ => EndsWell.pure rfl
  apply nextEnstruction_does.bind
  intro r hNext
  exact (setTargetFromEnstruction_does r.1).mono fun t' hTarget => hTarget.ebook.trans hNext.ebook

theorem go_executes : Yields (fun t' => ∃ e, openBook world around t.engineer index = .ok e ∧
    t'.engineer.ebook = e.ebook ∧
    (e.nextOf = [] ∧ t' = { t.send (.reply tid) with engineer := e } ∨
      ∃ ent t₁, e.nextOf = [ent] ∧ setTargetFromEnstruction world t₁ ent = .ok t'))
    (go world around t tid index) := by
  rw [go]
  cases hSrc : t.engineer.prevNode with
  | none => exact Yields.error
  | some src =>
    change Yields _ (match goRoute world around src (world.gTrack index) with
      | .error fault => _
      | .ok (ret, pb) => _)
    cases hRoute : goRoute world around src (world.gTrack index) with
    | error fault => exact Yields.error
    | ok r =>
      have hPath := goPath_eq hSrc hRoute
      rw [openBook, hPath]
      refine EndsWell.ite (fun hNone => EndsWell.pure ?_) fun hSome => ?_
      · rw [if_pos hNone]
        exact ⟨_, rfl, rfl, Or.inl ⟨initEbook_nextOf _, rfl⟩⟩
      · rw [if_neg hSome]
        refine Yields.skip fun book hBook => ?_
        have hOpen : (do
            let (_, ebook) ← makeEbook world.track r.2 t.engineer.ebook
            return { t.engineer with ebook := ebook, eat := 0 }) =
            .ok { t.engineer with ebook := book.2, eat := 0 } := by
          rw [show makeEbook world.track r.2 t.engineer.ebook = .ok book from hBook]
          rfl
        refine EndsWell.mono (followBook_executes.and followBook_ebook) fun t' hFollow => ?_
        exact ⟨_, hOpen, hFollow.2, hFollow.1⟩

/-- Something to be done with an enstruction. -/
abbrev Execute (Node : Type) :=
  EngineerTurn Node → Enstruction Node → Except EngineerFault (EngineerTurn Node)

section passing

variable (world) (around) (execute : Execute Node)

/-- This and the definitions after it are the source with something else in the place of
`setTargetFromEnstruction`. -/
def checkTargetWith (t : EngineerTurn Node) : Except EngineerFault (EngineerTurn Node) := do
  let e := t.engineer
  if e.targetNode = none then return t
  let pickUp := if e.isForward then 0 else pickUpOffset
  let dist := wrap32 ((← distanceBetween world.track t.trackBitmap e.prevNode e.targetNode)
    - pickUp - e.targetOffset - e.distSoFar)
  let stoppingDist ← e.stoppingDist e.speed
  if dist ≥ 0 ∧ stoppingDist > 0 ∧ dist ≤ stoppingDist then
    let t := issueSpeedCommand t 0
    let t := { t with engineer := { t.engineer with targetNode := none, targetOffset := 0 } }
    if t.engineer.eat < t.engineer.ebook.length then
      let (ent, t) ← nextEnstruction t
      let t ← execute t ent
      issueChecked t .reverse e.speed
    else return t
  else return t

def updateLocationWith (t : EngineerTurn Node) (tid : Nat) :
    Except EngineerFault (EngineerTurn Node) := do
  let e := t.engineer
  if e.state = .ready then return t
  if e.triggeredSensor then
    return { t.send (.location tid e.locationMessage) with
      engineer := { e with triggeredSensor := false } }
  let prevNode ← known .known e.prevNode
  let _ ← known .known e.prevSensor
  let nextSensor ← known .known e.nextSensor
  let nextNode ← known .nextKnown (← getNextNode world.track t.trackBitmap prevNode)
  let nextEdge ← known .nextKnown (← getNextEdge world.track t.trackBitmap prevNode)
  let e ← updateDistance world around e nextSensor
  let e := { e with lastLocationUpdateTime := around.currentTime }
  let distToNextNode := wrap32 (world.track.dist prevNode nextEdge * 1000 - e.distSoFar)
  let t ← checkTargetWith world execute { t with engineer := e }
  updatePosition world around t tid prevNode nextNode distToNextNode

def goWith (t : EngineerTurn Node) (tid : Nat) (index : Int) :
    Except EngineerFault (EngineerTurn Node) := do
  let src ← deref .prevNode t.engineer.prevNode
  let t := t.send (.reply tid)
  match goRoute world around src (world.gTrack index) with
  | .error fault => .error (.route fault)
  | .ok (ret, pb) =>
    if ret < 0 then
      return { t with engineer := { t.engineer with ebook := initEbook t.engineer.ebook } }
    let (_, ebook) ← makeEbook world.track pb t.engineer.ebook
    let t := { t with engineer := { t.engineer with ebook := ebook, eat := 0 } }
    if t.engineer.eat < t.engineer.ebook.length then
      let (ent, t) ← nextEnstruction t
      execute t ent
    else return t

def handleMessageWith (t : EngineerTurn Node) (tid : Nat) :
    EngineerMessage → Except EngineerFault (EngineerTurn Node)
  | .updateLocation => updateLocationWith world around execute t tid
  | .go index => goWith world around execute t tid index
  | message => handleMessage world around t tid message

def engineerRoundWith (e : Engineer Node) (round : EngineerRound Node) :
    Except EngineerFault (EngineerTurn Node) :=
  handleMessageWith world round.around execute ⟨e, round.trackBitmap, []⟩ round.tid round.message

/-- The round passes only enstructions like these on: what would be done with others makes no
difference to it. -/
def PassesOnly (pages : Enstruction Node → Prop) (e : Engineer Node) (round : EngineerRound Node) :
    Prop :=
  ∀ execute execute' : Execute Node, (∀ t ent, pages ent → execute t ent = execute' t ent) →
    engineerRoundWith world execute e round = engineerRoundWith world execute' e round

theorem engineerRound_eq_with (e : Engineer Node) (round : EngineerRound Node) :
    engineerRound world e round
      = engineerRoundWith world (setTargetFromEnstruction world) e round := by
  rw [engineerRound, engineerRoundWith]
  cases round.message <;> rfl

end passing

/-- The go command gets a path that `makeEbook` makes no book of. -/
def Engineer.plansNoMove (world : EngineerWorld Node) (e : Engineer Node)
    (round : EngineerRound Node) : Bool :=
  match round.message with
  | .go index =>
    match goPath world round.around e index with
    | .ok (some pb) => pb.length < 2
    | _ => false
  | _ => false

/-- The book for the last go command, if it has got one. -/
def bookAfter (world : EngineerWorld Node) (book : Option (Ebook Node)) (e : Engineer Node)
    (round : EngineerRound Node) : Option (Ebook Node) :=
  match round.message with
  | .go index =>
    match goPath world round.around e index with
    | .ok (some pb) =>
      if pb.length < 2 then none else (openBook world round.around e index).toOption.map (·.ebook)
    | _ => none
  | _ => book

/-! ## One message -/

/-- What is left to read is in the book for the last go command. -/
def Engineer.ReadsIn (e : Engineer Node) (book : Option (Ebook Node)) : Prop :=
  0 < e.ebook.length → book = some e.ebook

omit [DecidableEq Node] in
theorem Engineer.ReadsIn.has {e : Engineer Node} {book : Option (Ebook Node)} (h : e.ReadsIn book)
    {ent : Enstruction Node} (hNext : ent ∈ e.nextOf) : ∃ b ∈ book, b.Has ent := by
  obtain ⟨hLength, hHas⟩ := nextOf_has hNext
  exact ⟨e.ebook, h hLength, hHas⟩

theorem openBook_readsIn {e e' : Engineer Node} {book : Option (Ebook Node)}
    {round : EngineerRound Node} (hMessage : round.message = .go index)
    (hStays : e.plansNoMove world round = true → e.ebook.length ≤ 0)
    (hOpen : openBook world round.around e index = .ok e') :
    e'.ReadsIn (bookAfter world book e round) := by
  rw [bookAfter, hMessage]
  dsimp only
  rw [hOpen]
  rw [openBook] at hOpen
  cases hPath : goPath world round.around e index with
  | error fault =>
    rw [hPath] at hOpen
    cases hOpen
  | ok path =>
    rw [hPath] at hOpen
    cases path with
    | none =>
      intro hLength
      obtain rfl := Except.ok.inj hOpen
      exact absurd hLength (lt_irrefl 0)
    | some pb =>
      dsimp only
      split_ifs with hShort
      · -- The book is left as it is, and it has to be empty.
        have hSame : e'.ebook = e.ebook := by
          change (makeEbook world.track pb e.ebook >>= fun r =>
            pure { e with ebook := r.2, eat := 0 }) = _ at hOpen
          rw [makeEbook, if_pos hShort] at hOpen
          obtain rfl := Except.ok.inj hOpen
          rfl
        intro hLength
        rw [hSame] at hLength
        refine absurd (hStays ?_) hLength.not_ge
        rw [Engineer.plansNoMove, hMessage]
        dsimp only
        rw [hPath]
        exact decide_eq_true hShort
      · exact fun _ => rfl

section same

variable {execute execute' : Execute Node} {pages : Enstruction Node → Prop}
variable (hSame : ∀ t ent, pages ent → execute t ent = execute' t ent)
include hSame

omit [DecidableEq Node] in
/-- The engineer passes on the next enstruction of its book, if there is one. -/
theorem passNext_congr (hPages : ∀ ent ∈ t.engineer.nextOf, pages ent)
    (after : Except EngineerFault (EngineerTurn Node) →
      Except EngineerFault (EngineerTurn Node)) :
    (if t.engineer.eat < t.engineer.ebook.length then
      nextEnstruction t >>= fun r => after (execute r.2 r.1) else pure t) =
    if t.engineer.eat < t.engineer.ebook.length then
      nextEnstruction t >>= fun r => after (execute' r.2 r.1) else pure t := by
  split_ifs with hMore
  · rw [nextEnstruction_eq]
    split_ifs with hBounds
    · have hNext : t.engineer.ebook.enstructs t.engineer.eat.toNat ∈ t.engineer.nextOf := by
        rw [Engineer.nextOf, if_pos ⟨hMore, hBounds⟩]
        exact List.mem_singleton_self _
      exact congrArg after (hSame _ _ (hPages _ hNext))
    · rfl
  · rfl

theorem checkTargetWith_congr (hPages : ∀ ent ∈ t.engineer.nextOf, pages ent) :
    checkTargetWith world execute t = checkTargetWith world execute' t := by
  rw [checkTargetWith, checkTargetWith]
  refine if_congr Iff.rfl rfl (bind_congr fun dist => bind_congr fun stoppingDist =>
    if_congr Iff.rfl ?_ rfl)
  have hStopped : (clearTarget (issueSpeedCommand t 0)).engineer.nextOf = t.engineer.nextOf := by
    rw [Engineer.nextOf, Engineer.nextOf, ← issueSpeedCommand_eat t 0,
      ← (issueSpeedCommand_does t).ebook]
    rfl
  rw [← hStopped] at hPages
  exact passNext_congr hSame hPages (· >>= fun t' => issueChecked t' .reverse t.engineer.speed)

theorem updateLocationWith_congr (hPages : ∀ ent ∈ t.engineer.nextOf, pages ent) :
    updateLocationWith world around execute t tid =
      updateLocationWith world around execute' t tid := by
  rw [updateLocationWith, updateLocationWith]
  refine if_congr Iff.rfl rfl (if_congr Iff.rfl rfl (bind_congr fun _ => bind_congr fun _ =>
    bind_congr fun nextSensor => bind_congr fun _ => bind_congr fun _ => bind_congr fun _ =>
    bind_congr fun _ => (updateDistance_moves t.engineer nextSensor).bind_congr fun e hMoved => ?_))
  refine congrArg (· >>= _) (checkTargetWith_congr hSame ?_)
  dsimp only
  rw [hMoved]
  exact hPages

theorem goWith_congr (hPages : ∀ e, openBook world around t.engineer index = .ok e →
    ∀ ent ∈ e.nextOf, pages ent) :
    goWith world around execute t tid index = goWith world around execute' t tid index := by
  rw [goWith, goWith]
  cases hSrc : t.engineer.prevNode with
  | none => rfl
  | some src =>
    rw [deref]
    dsimp only [bind, Except.bind]
    cases hRoute : goRoute world around src (world.gTrack index) with
    | error fault => rfl
    | ok r =>
      have hPath := goPath_eq hSrc hRoute
      dsimp only
      by_cases hNone : r.1 < 0
      · rw [if_pos hNone, if_pos hNone]
      rw [if_neg hNone, if_neg hNone]
      rw [if_neg hNone] at hPath
      refine (Yields.of_eq fun book hBook => hBook).bind_congr fun book hBook => ?_
      have hOpen : openBook world around t.engineer index
          = .ok { t.engineer with ebook := book.2, eat := 0 } := by
        rw [openBook, hPath]
        change makeEbook world.track r.2 t.engineer.ebook >>= _ = _
        rw [show makeEbook world.track r.2 t.engineer.ebook = .ok book from hBook]
        rfl
      exact passNext_congr (t := { t.send (.reply tid) with
        engineer := { t.engineer with ebook := book.2, eat := 0 } }) hSame (hPages _ hOpen) id

end same

/-- The round passes on enstructions of the book for the last go command only, and a go command
that needs no move changes neither the turnouts nor the target. -/
structure FollowsRoute (world : EngineerWorld Node) (book : Option (Ebook Node))
    (e : Engineer Node) (round : EngineerRound Node) : Prop where
  passes : PassesOnly world (fun ent => ∃ b ∈ bookAfter world book e round, b.Has ent) e round
  stays : e.plansNoMove world round = true → Yields (fun t =>
    t.engineer.targetNode = e.targetNode ∧ t.engineer.targetOffset = e.targetOffset ∧
      ∀ number direction, .switch number direction ∉ t.sent) (engineerRound world e round)

theorem passesOnly_book {e : Engineer Node} {book : Option (Ebook Node)}
    {round : EngineerRound Node} (h : e.ReadsIn book)
    (hStays : e.plansNoMove world round = true → e.ebook.length ≤ 0) :
    PassesOnly world (fun ent => ∃ b ∈ bookAfter world book e round, b.Has ent) e round := by
  intro execute execute' hSame
  rw [engineerRoundWith, engineerRoundWith]
  cases hMessage : round.message with
  | go index =>
    refine goWith_congr (t := round.turn e) hSame fun e' hOpen ent hNext => ?_
    exact (openBook_readsIn hMessage hStays hOpen).has hNext
  | updateLocation =>
    refine updateLocationWith_congr (t := round.turn e) hSame fun ent hNext => ?_
    rw [bookAfter, hMessage]
    exact h.has hNext
  | _ => rfl

theorem openBook_target {e e' : Engineer Node}
    (hOpen : openBook world around e index = .ok e') :
    e'.targetNode = e.targetNode ∧ e'.targetOffset = e.targetOffset := by
  have hOpened : Yields (fun e' : Engineer Node => e'.targetNode = e.targetNode ∧
      e'.targetOffset = e.targetOffset) (openBook world around e index) := by
    refine Yields.skip fun path _ => ?_
    cases path with
    | none => exact EndsWell.pure ⟨rfl, rfl⟩
    | some pb => exact Yields.skip fun _ _ => EndsWell.pure ⟨rfl, rfl⟩
  exact hOpened.of_ok hOpen

theorem bookAfter_noMove {e : Engineer Node} {round : EngineerRound Node}
    (h : e.plansNoMove world round = true) (book : Option (Ebook Node)) :
    bookAfter world book e round = none := by
  rw [Engineer.plansNoMove] at h
  rw [bookAfter]
  cases hMessage : round.message with
  | go index =>
    rw [hMessage] at h
    dsimp only at h ⊢
    cases hPath : goPath world round.around e index with
    | error fault => rfl
    | ok path =>
      rw [hPath] at h
      cases path with
      | none => rfl
      | some pb => exact if_pos (of_decide_eq_true h)
  | _ =>
    rw [hMessage] at h
    cases h

theorem go_stays {e : Engineer Node} {round : EngineerRound Node}
    (hNoMove : e.plansNoMove world round = true) (hStays : e.ebook.length ≤ 0) :
    Yields (fun t => t.engineer.targetNode = e.targetNode ∧
      t.engineer.targetOffset = e.targetOffset ∧
      ∀ number direction, .switch number direction ∉ t.sent) (engineerRound world e round) := by
  rw [engineerRound]
  cases hMessage : round.message with
  | go index =>
    apply (go_executes (t := round.turn e)).mono
    intro t hGo
    obtain ⟨e', hOpen, -, ⟨-, rfl⟩ | ⟨ent, -, hNext, -⟩⟩ := hGo
    · obtain ⟨hNode, hOffset⟩ := openBook_target hOpen
      refine ⟨hNode, hOffset, fun number direction hMem => ?_⟩
      have hReply : EngineerOutput.switch number direction ∈ [.reply round.tid] := hMem
      rw [List.mem_singleton] at hReply
      cases hReply
    · have hReads : e'.ReadsIn none := by
        rw [← bookAfter_noMove hNoMove none]
        exact openBook_readsIn hMessage (fun _ => hStays) hOpen
      have hMem : ent ∈ e'.nextOf := by
        rw [hNext]
        exact List.mem_singleton_self ent
      obtain ⟨book, hBook, -⟩ := hReads.has hMem
      cases hBook
  | _ =>
    rw [Engineer.plansNoMove, hMessage] at hNoMove
    cases hNoMove

theorem engineerRound_ebook {e : Engineer Node} {round : EngineerRound Node}
    (hGo : ∀ index, round.message ≠ .go index) :
    Yields (fun t => t.engineer.ebook = e.ebook) (engineerRound world e round) := by
  rw [engineerRound]
  cases hMessage : round.message with
  | updateLocation => exact (updateLocation_does _).mono fun t hDoes => hDoes.ebook
  | updateSensor sensor time =>
    exact (updateSensor_claims _ sensor time).mono fun t hSensor => hSensor.1.ebook
  | commandWorkerReverseSet =>
    exact (commandWorkerReverseSet_claims _).mono fun t hReversed => hReversed.1.ebook
  | sensorCourierRequest => exact EndsWell.ok (sensorCourierRequest_claims _).2.ebook
  | go index => exact absurd hMessage (hGo index)
  | xMark index offset => exact (xMark_does _ index offset).mono fun t hDoes => hDoes.ebook
  | setSpeed speed => exact (setSpeed_does _ speed).mono fun t hDoes => hDoes.1.ebook
  | setReverse => exact (setReverse_does _).mono fun t hDoes => hDoes.1.ebook
  | commandWorkerRequest =>
    exact (commandWorkerRequest_orders _).mono fun t hRequest => hRequest.2.1
  | commandWorkerSpeedSet speed => exact EndsWell.ok (commandWorkerSpeedSet_does _ speed).ebook
  | timeoutSensor => exact Yields.error
  | initializeTrain trainNumber sensorIndex => exact Yields.error

theorem engineerRound_readsIn {e : Engineer Node} {book : Option (Ebook Node)}
    {round : EngineerRound Node} (h : e.ReadsIn book)
    (hStays : e.plansNoMove world round = true → e.ebook.length ≤ 0) :
    Yields (fun t => t.engineer.ReadsIn (bookAfter world book e round))
      (engineerRound world e round) := by
  by_cases hGo : ∃ index, round.message = .go index
  · obtain ⟨index, hMessage⟩ := hGo
    rw [engineerRound, hMessage]
    apply (go_executes (t := round.turn e)).mono
    intro t hGo
    obtain ⟨e', hOpen, hEbook, -⟩ := hGo
    rw [Engineer.ReadsIn, hEbook]
    exact openBook_readsIn hMessage hStays hOpen
  · have hOther : bookAfter world book e round = book := by
      rw [bookAfter]
      split
      · rename_i index hMessage
        exact absurd ⟨index, hMessage⟩ hGo
      · rfl
    rw [hOther]
    refine (engineerRound_ebook fun index hMessage => hGo ⟨index, hMessage⟩).mono fun t hEbook => ?_
    rw [Engineer.ReadsIn, hEbook]
    exact h

/-- A go command that needs no move finds no book that is left from an earlier one. -/
def Engineer.FindsNoBook (world : EngineerWorld Node) (e : Engineer Node)
    (round : EngineerRound Node) : Prop :=
  e.plansNoMove world round = true → e.ebook.length ≤ 0

instance (e : Engineer Node) : DecidablePred (e.FindsNoBook world) :=
  fun _ => inferInstanceAs (Decidable (_ → _))

def currentBook (world : EngineerWorld Node) :
    Engineer Node → Option (Ebook Node) → List (EngineerRound Node) → Option (Ebook Node) :=
  recordRounds world fun book e round _ => bookAfter world book e round

theorem only_current_route (world : EngineerWorld Node) (trainNumber creationTime : Int)
    (locationWorkerTid : Nat) (cmdBuf : Nat → Command) (outstandingClaim : SensorClaim)
    (locationMessage : LocationMessage Node) (ebook : Ebook Node) (hEbook : ebook.length ≤ 0)
    (rounds : List (EngineerRound Node)) (round : EngineerRound Node)
    (hRounds : EveryRound world (fun e round => e.FindsNoBook world round)
      (Engineer.start trainNumber creationTime locationWorkerTid cmdBuf outstandingClaim
        locationMessage ebook) (rounds ++ [round]))
    {e : Engineer Node} (hRun : engineerServer world (Engineer.start trainNumber creationTime
      locationWorkerTid cmdBuf outstandingClaim locationMessage ebook) rounds = .ok e) :
    FollowsRoute world (currentBook world (Engineer.start trainNumber creationTime
      locationWorkerTid cmdBuf outstandingClaim locationMessage ebook) none rounds) e round := by
  obtain ⟨hBefore, hLast⟩ := everyRound_concat hRounds hRun
  have hStart : (Engineer.start trainNumber creationTime locationWorkerTid cmdBuf
      outstandingClaim locationMessage ebook).ReadsIn none :=
    fun hLength => absurd hEbook hLength.not_ge
  have hReads : e.ReadsIn (currentBook world _ none rounds) :=
    recordRounds_invariant Engineer.ReadsIn
      (fun e book round h hStays => engineerRound_readsIn h hStays) hStart hBefore hRun
  exact ⟨passesOnly_book hReads hLast, fun hNoMove => go_stays hNoMove (hLast hNoMove)⟩

/-- An enstruction is passed on in the round: it fails if that does. -/
def passesOn (world : EngineerWorld Node) (e : Engineer Node) (round : EngineerRound Node) : Bool :=
  (engineerRound world e round).isOk &&
    !(engineerRoundWith world (fun _ _ => .error .outOfBounds) e round).isOk

/-- The engineer is sent to the next sensor, and follows the first enstruction of the route. -/
theorem only_current_route_circle : ∃ e,
    FollowsRoute circleWorld (currentBook circleWorld circleEngineer none
      [circleRound 8 (.updateSensor 0 100) 100]) e (circleRound 3 (.go 1) 110) ∧
    passesOn circleWorld e (circleRound 3 (.go 1) 110) = true := by
  have hPasses : (match engineerServer circleWorld circleEngineer
        [circleRound 8 (.updateSensor 0 100) 100] with
      | .ok e => passesOn circleWorld e (circleRound 3 (.go 1) 110)
      | .error _ => false) = true := by
    decide +kernel
  cases hRun : engineerServer circleWorld circleEngineer
      [circleRound 8 (.updateSensor 0 100) 100] with
  | error fault =>
    rw [hRun] at hPasses
    cases hPasses
  | ok e =>
    rw [hRun] at hPasses
    refine ⟨e, ?_, hPasses⟩
    exact only_current_route circleWorld 66 0 7 _ _ _ _ le_rfl _ _ (by decide +kernel) hRun

/-- The train is sent to the next sensor, and then to the node behind itself. -/
def behindItself : List (EngineerRound (Bool × Bool)) :=
  [circleRound 8 (.updateSensor 0 100) 100, circleRound 3 (.go 1) 110]

theorem not_followsRoute : ¬∀ e, engineerServer circleWorld circleEngineer behindItself = .ok e →
    FollowsRoute circleWorld (currentBook circleWorld circleEngineer none behindItself) e
      (circleRound 3 (.go 2) 120) := by
  intro hFollows
  have hPasses : (match engineerServer circleWorld circleEngineer behindItself with
      | .ok e => e.plansNoMove circleWorld (circleRound 3 (.go 2) 120) &&
        passesOn circleWorld e (circleRound 3 (.go 2) 120)
      | .error _ => false) = true := by
    decide +kernel
  cases hRun : engineerServer circleWorld circleEngineer behindItself with
  | error fault =>
    rw [hRun] at hPasses
    cases hPasses
  | ok e =>
    rw [hRun, Bool.and_eq_true, passesOn, Bool.and_eq_true, Bool.not_eq_true',
      engineerRound_eq_with] at hPasses
    obtain ⟨hNoMove, hOk, hError⟩ := hPasses
    have hSame := (hFollows e hRun).passes (setTargetFromEnstruction circleWorld)
      (fun _ _ => .error .outOfBounds) fun t ent hPage => by
        rw [bookAfter_noMove hNoMove] at hPage
        obtain ⟨book, hBook, -⟩ := hPage
        cases hBook
    rw [hSame, hError] at hOk
    cases hOk

end TrainKernel.User
