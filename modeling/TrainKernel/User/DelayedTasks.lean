import TrainKernel.User.ClockQueue

/-!
# The delayed tasks

A task that asks for a delay joins the list, and it leaves the list when it gets its reply. What
has been asked for and answered is kept in a ledger beside the server.
-/

namespace TrainKernel.User

open Function

variable {q q' : DelayedQueue} {l l' : List Tid} {x tid : Tid} {f tick : Nat}
variable {s s' : ClockServer} {req : ClockReq}

def requestedTick (s : ClockServer) (req : ClockReq) : Option Nat :=
  if req.type = delay then some (toUnsigned (req.data + s.tick))
  else if req.type = delayUntil then some (toUnsigned req.data)
  else none

/-- The final ticks of the tasks that have asked for one and have no reply yet. -/
abbrev Pending := Tid → Option Nat

def Pending.record (pending : Pending) (s : ClockServer) (tid : Tid) (req : ClockReq)
    (replied : List Tid) : Pending := fun x =>
  if x ∈ replied then none else if x = tid then requestedTick s req else pending x

/-- The server handles the requests one after another, each of them one that `ok` lets
through, and gives the replies of each. -/
inductive Serves (ok : ClockServer → Pending → Tid → ClockReq → Prop) :
    ClockServer → Pending → List (Tid × ClockReq) → List (List Tid) →
      ClockServer → Pending → Prop
  | nil (s : ClockServer) (pending : Pending) : Serves ok s pending [] [] s pending
  | cons {s s₁ s' : ClockServer} {pending pending' : Pending} {tid : Tid} {req : ClockReq}
      {replied : List Tid} {rest : List (Tid × ClockReq)} {outs : List (List Tid)}
      (hOk : ok s pending tid req) (hServe : serveClock s tid req = some (s₁, replied))
      (hRest : Serves ok s₁ (pending.record s tid req replied) rest outs s' pending') :
      Serves ok s pending ((tid, req) :: rest) (replied :: outs) s' pending'

theorem requestedTick_notification (hType : req.type = notification) :
    requestedTick s req = none := by
  rw [requestedTick, if_neg (by rw [hType]; decide), if_neg (by rw [hType]; decide)]

theorem serveClock_delayed (hTick : requestedTick s req = some f) : serveClock s tid req =
    (insertDelayedTask s.queue tid f).map fun queue => ({ s with queue }, []) := by
  rw [requestedTick] at hTick
  rw [serveClock]
  split_ifs at hTick with hDelay hUntil
  · rw [if_neg (by rw [hDelay]; decide), if_neg (by rw [hDelay]; decide), if_pos hDelay,
      Option.some.inj hTick]
  · rw [if_neg (by rw [hUntil]; decide), if_neg (by rw [hUntil]; decide), if_neg hDelay,
      if_pos hUntil, Option.some.inj hTick]

theorem serveClock_time (tid : Tid) (hKnown : req.type = notification ∨ req.type = time ∨
      req.type = delay ∨ req.type = delayUntil) (hNotify : req.type ≠ notification)
    (hTick : requestedTick s req = none) : serveClock s tid req = some (s, [tid]) := by
  rw [requestedTick] at hTick
  split_ifs at hTick with hDelay hUntil
  have hTime : req.type = time := by
    rcases hKnown with hType | hType | hType | hType
    · exact absurd hType hNotify
    · exact hType
    · exact absurd hType hDelay
    · exact absurd hType hUntil
  rw [serveClock, if_neg hNotify, if_pos hTime]

theorem Pending.record_time {pending : Pending} (hFree : pending tid = none) :
    pending.record s tid req [tid] = pending := by
  funext x
  by_cases hx : x = tid
  · subst hx
    rw [Pending.record, if_pos (List.mem_singleton_self x), hFree]
  · simp [Pending.record, hx]

/-- The list holds the tasks of the ledger, with their final ticks. -/
structure Holds (s : ClockServer) (pending : Pending) (l : List Tid) : Prop where
  contains : s.queue.Contains l
  pending_eq : ∀ x, pending x = if x ∈ l then some (s.queue.finalTick x) else none

theorem holds_init : Holds initClockServer (fun _ => none) [] :=
  ⟨⟨fun _ => rfl, rfl, fun init t hEq => by simp at hEq⟩, fun _ => rfl⟩

namespace Holds

variable {pending : Pending}

theorem not_mem (h : Holds s pending l) (hFree : pending x = none) : x ∉ l := by
  intro hMem
  rw [h.pending_eq, if_pos hMem] at hFree
  cases hFree

theorem mem (h : Holds s pending l) (hx : pending x = some f) :
    x ∈ l ∧ s.queue.finalTick x = f := by
  rw [h.pending_eq] at hx
  split_ifs at hx with hMem
  exact ⟨hMem, Option.some.inj hx⟩

theorem insert (h : Holds s pending l) (hFree : pending tid = none)
    (hTick : requestedTick s req = some f) :
    ∃ q' l', insertDelayedTask s.queue tid f = some q' ∧
      Holds { s with queue := q' } (pending.record s tid req []) l' ∧
      q'.finalTick = update s.queue.finalTick tid f ∧
      Inserted (update s.queue.finalTick tid f) f tid l l' := by
  have hNew := h.not_mem hFree
  obtain ⟨q', l', hEq, hTicks, hContains, hInserted⟩ :=
    insertDelayedTask_spec (f := f) h.contains hNew
  refine ⟨q', l', hEq, ⟨hContains, ?_⟩, hTicks, hInserted⟩
  intro y
  have hMem := hInserted.mem_iff y
  rw [Pending.record, if_neg List.not_mem_nil, hTicks, hTick]
  by_cases hy : y = tid
  · subst hy
    rw [if_pos rfl, if_pos (hMem.mpr (Or.inl rfl)), update_self]
  · have hSame : y ∈ l' ↔ y ∈ l := hMem.trans (or_iff_right hy)
    rw [if_neg hy, h.pending_eq, update_of_ne hy]
    simp only [hSame]

theorem expire (h : Holds s pending l) (hFree : pending tid = none)
    (hType : req.type = notification) :
    ∃ q' gone l', serveClock s tid req = some (⟨(s.tick + 1) % 2 ^ 32, q'⟩, tid :: gone) ∧
      l = gone ++ l' ∧ q'.finalTick = s.queue.finalTick ∧
      Holds ⟨(s.tick + 1) % 2 ^ 32, q'⟩ (pending.record s tid req (tid :: gone)) l' ∧
      (∀ y ∈ gone, s.queue.finalTick y ≤ (s.tick + 1) % 2 ^ 32) ∧
      ∀ y, l'.head? = some y → (s.tick + 1) % 2 ^ 32 < s.queue.finalTick y := by
  have hNew := h.not_mem hFree
  obtain ⟨q', gone, l', hEq, rfl, hTicks, hContains, hGone, hHead⟩ :=
    removeExpiredTasks_spec ((s.tick + 1) % 2 ^ 32) h.contains
  refine ⟨q', gone, l', ?_, rfl, hTicks, ⟨hContains, ?_⟩, hGone, hHead⟩
  · rw [serveClock, if_pos hType]
    simp only [hEq]
    rfl
  · have hNodup := List.nodup_append.mp h.contains.nodup
    rw [List.mem_append, not_or] at hNew
    intro y
    rw [Pending.record, hTicks, requestedTick_notification hType, h.pending_eq]
    by_cases hy : y = tid
    · subst hy
      rw [if_pos List.mem_cons_self, if_neg hNew.2]
    · by_cases hMem : y ∈ gone
      · have hLeft : y ∉ l' := fun hLeft => hNodup.2.2 y hMem y hLeft rfl
        rw [if_pos (List.mem_cons_of_mem _ hMem), if_neg hLeft]
      · simp [hy, hMem]

end Holds

/-- A request of a kind that the server knows, from a task that is not delayed. -/
structure FreeRequest (_ : ClockServer) (pending : Pending) (tid : Tid) (req : ClockReq) :
    Prop where
  known : req.type = notification ∨ req.type = time ∨ req.type = delay ∨ req.type = delayUntil
  free : pending tid = none

/-- A reply goes to the task that asks, unless it asks for a delay, or to a delayed task that is
due. -/
structure Answered (s : ClockServer) (pending : Pending) (tid : Tid) (req : ClockReq)
    (s' : ClockServer) (replied : List Tid) : Prop where
  nodup : replied.Nodup
  sender : requestedTick s req = none → tid ∈ replied
  due : ∀ x ∈ replied, x = tid ∧ requestedTick s req = none ∨
    ∃ f, pending x = some f ∧ f ≤ s'.tick

theorem Holds.serve {pending : Pending} (h : Holds s pending l)
    (hReq : FreeRequest s pending tid req) :
    ∃ s' replied l', serveClock s tid req = some (s', replied) ∧
      Holds s' (pending.record s tid req replied) l' ∧ Answered s pending tid req s' replied := by
  cases hTick : requestedTick s req with
  | some f =>
    obtain ⟨q', l', hEq, hHolds, -, -⟩ := h.insert hReq.free hTick
    refine ⟨{ s with queue := q' }, [], l', ?_, hHolds, List.nodup_nil, ?_, nofun⟩
    · rw [serveClock_delayed hTick, hEq]
      rfl
    · intro hNone
      cases hTick.symm.trans hNone
  | none =>
    by_cases hNotify : req.type = notification
    · obtain ⟨q', gone, l', hEq, rfl, -, hHolds, hGone, -⟩ := h.expire hReq.free hNotify
      have hNew := h.not_mem hReq.free
      rw [List.mem_append, not_or] at hNew
      have hNodup := (List.nodup_append.mp h.contains.nodup).1
      refine ⟨_, _, l', hEq, hHolds, List.nodup_cons.mpr ⟨hNew.1, hNodup⟩,
        fun _ => List.mem_cons_self, ?_⟩
      intro x hMem
      rcases List.mem_cons.mp hMem with rfl | hMem
      · exact Or.inl ⟨rfl, hTick⟩
      · refine Or.inr ⟨_, ?_, hGone x hMem⟩
        rw [h.pending_eq, if_pos (List.mem_append_left _ hMem)]
    · refine ⟨s, [tid], l, serveClock_time tid hReq.known hNotify hTick, ?_,
        List.nodup_singleton tid, fun _ => List.mem_singleton_self tid, ?_⟩
      · rwa [Pending.record_time hReq.free]
      · intro x hMem
        rw [List.mem_singleton] at hMem
        exact Or.inl ⟨hMem, hTick⟩

/-- One for a task that is still waiting. -/
def Pending.owed (pending : Pending) (x : Tid) : Nat := if (pending x).isSome then 1 else 0

theorem Answered.owed {pending : Pending} {replied : List Tid}
    (h : Answered s pending tid req s' replied) (hFree : pending tid = none) (x : Tid) :
    pending.owed x + [tid].count x =
      replied.count x + (pending.record s tid req replied).owed x := by
  rw [Pending.owed, Pending.owed, Pending.record, List.count_singleton, h.nodup.count]
  by_cases hMem : x ∈ replied
  · rcases h.due x hMem with ⟨rfl, -⟩ | ⟨f, hx, -⟩
    · simp [hMem, hFree]
    · have hNe : tid ≠ x := by
        rintro rfl
        cases hFree.symm.trans hx
      simp [hMem, hx, hNe]
  · by_cases hx : x = tid
    · subst hx
      have hTick : requestedTick s req ≠ none := mt h.sender hMem
      simp [hMem, hFree, Option.isSome_iff_ne_none.mpr hTick]
    · simp [hMem, hx, Ne.symm hx]

/-- Every request has had its reply, and one only, but for those of the tasks that wait. -/
theorem Serves.conserves {pending pending' : Pending} {reqs : List (Tid × ClockReq)}
    {outs : List (List Tid)} (hRun : Serves FreeRequest s pending reqs outs s' pending')
    (h : Holds s pending l) :
    (∃ l', Holds s' pending' l') ∧ ∀ x, pending.owed x + (reqs.map Prod.fst).count x =
      outs.flatten.count x + pending'.owed x := by
  induction hRun generalizing l with
  | nil => exact ⟨⟨l, h⟩, fun x => by simp⟩
  | @cons s s₁ s' pending pending' tid req replied rest outs hReq hServe hRest ih =>
    obtain ⟨_, _, l₁, hEq, hHolds, hAnswered⟩ := h.serve hReq
    cases hServe.symm.trans hEq
    obtain ⟨hLast, hBalance⟩ := ih hHolds
    refine ⟨hLast, fun x => ?_⟩
    have hStep := hAnswered.owed hReq.free x
    have hLater := hBalance x
    have hFirst : ((tid, req) :: rest).map Prod.fst = [tid] ++ rest.map Prod.fst := rfl
    rw [hFirst, List.count_append, List.flatten_cons, List.count_append]
    omega

/-- Tasks are in the list while they wait, and a reply never comes early or twice. -/
theorem delayed_tasks_conserved {pending : Pending} {reqs : List (Tid × ClockReq)}
    {outs : List (List Tid)}
    (hRun : Serves FreeRequest initClockServer (fun _ => none) reqs outs s pending) :
    (∃ l, s.queue.Contains l ∧ l.Nodup ∧
      ∀ x, pending x = if x ∈ l then some (s.queue.finalTick x) else none) ∧
    (∀ x, (reqs.map Prod.fst).count x = outs.flatten.count x + pending.owed x) ∧
    ∀ tid req, FreeRequest s pending tid req → ∃ s' replied,
      serveClock s tid req = some (s', replied) ∧ Answered s pending tid req s' replied := by
  obtain ⟨⟨l, hHolds⟩, hBalance⟩ := hRun.conserves holds_init
  refine ⟨⟨l, hHolds.contains, hHolds.contains.nodup, hHolds.pending_eq⟩, ?_, ?_⟩
  · intro x
    have hNone : Pending.owed (fun _ => none) x = 0 := rfl
    rw [← hBalance x, hNone, Nat.zero_add]
  · intro tid req hReq
    obtain ⟨s', replied, -, hServe, -, hAnswered⟩ := hHolds.serve hReq
    exact ⟨s', replied, hServe, hAnswered⟩

/-- Task 3 waits until tick 2 and task 5 until tick 1, which the first notification reaches. -/
theorem delayed_tasks_conserved_two : ∃ s pending, Serves FreeRequest initClockServer
    (fun _ => none) [(3, ⟨delay, 2⟩), (5, ⟨delayUntil, 1⟩), (1, ⟨notification, 0⟩)]
    [[], [], [1, 5]] s pending ∧ (∃ l, s.queue.Contains l ∧ l.Nodup ∧
      ∀ x, pending x = if x ∈ l then some (s.queue.finalTick x) else none) ∧
    pending 3 = some 2 ∧ pending 5 = none := by
  have hRun : Serves FreeRequest initClockServer (fun _ => none)
      [(3, ⟨delay, 2⟩), (5, ⟨delayUntil, 1⟩), (1, ⟨notification, 0⟩)] [[], [], [1, 5]] _ _ :=
    .cons ⟨by decide, rfl⟩ rfl (.cons ⟨by decide, rfl⟩ rfl
      (.cons ⟨by decide, rfl⟩ rfl (.nil _ _)))
  exact ⟨_, _, hRun, (delayed_tasks_conserved hRun).1, rfl, rfl⟩

end TrainKernel.User
