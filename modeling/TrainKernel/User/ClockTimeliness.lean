import TrainKernel.User.DelayedTasks

/-!
# When a delayed task is woken

A task is due at the first notification whose tick reaches its final tick. The server
keeps this promise as long as no insertion leaves the front of the list to a task that is
due later than others: the list is then ordered but for ticks that the next notification
passes anyway.
-/

namespace TrainKernel.User

open Function Library.Links

variable {q q' : DelayedQueue} {l l' : List Tid} {x tid : Tid} {f tick : Nat}
variable {finalTick : Tid → Nat} {s s' : ClockServer} {req : ClockReq}

/-- Sorted by final tick, when all that the next notification reaches counts as equal. -/
def Ordered (tick : Nat) (finalTick : Tid → Nat) (l : List Tid) : Prop :=
  l.Pairwise fun a b => finalTick a ≤ max (finalTick b) (tick + 1)

/-- An insertion puts the task before another one, or behind a list whose last task is due
no later than its first one. -/
def SafeOrder (tick : Nat) (finalTick : Tid → Nat) (f : Nat) (l : List Tid) : Prop :=
  (∃ y ∈ l, f ≤ finalTick y) ∨
    ∀ h t, l.head? = some h → l.getLast? = some t → finalTick t ≤ max (finalTick h) (tick + 1)

theorem Inserted.ordered (h : Inserted finalTick f x l l') (hx : finalTick x = f)
    (hOrdered : Ordered tick finalTick l) (hSafe : SafeOrder tick finalTick f l) :
    Ordered tick finalTick l' := by
  cases h with
  | empty => exact List.pairwise_singleton _ _
  | @before l₁ l₂ y hPast hDue =>
    rw [Ordered, List.pairwise_append, List.pairwise_cons] at hOrdered ⊢
    obtain ⟨hLeft, ⟨hHead, hRight⟩, hAcross⟩ := hOrdered
    refine ⟨hLeft, ⟨?_, List.pairwise_cons.mpr ⟨hHead, hRight⟩⟩, ?_⟩
    · intro z hz
      rcases List.mem_cons.mp hz with rfl | hz
      · omega
      · have := hHead z hz
        omega
    · intro z hz w hw
      rcases List.mem_cons.mp hw with rfl | hw
      · have := hPast z hz
        omega
      · exact hAcross z hz w hw
  | @last l t hPast =>
    have hFront : ∀ z ∈ l, finalTick t ≤ max (finalTick z) (tick + 1) := by
      rcases hSafe with ⟨y, hy, hDue⟩ | hSafe
      · exact absurd (hPast y hy) (Nat.not_lt.mpr hDue)
      · cases l with
        | nil => nofun
        | cons h l =>
          have hHead := hSafe h t rfl (by rw [List.getLast?_append]; rfl)
          rw [Ordered, List.cons_append, List.pairwise_cons] at hOrdered
          intro z hz
          rcases List.mem_cons.mp hz with rfl | hz
          · exact hHead
          · have := hOrdered.1 z (by simp [hz])
            omega
    rw [Ordered, List.pairwise_append] at hOrdered
    rw [Ordered, List.cons_append, List.pairwise_cons, List.pairwise_append]
    refine ⟨?_, hOrdered.1, List.pairwise_singleton _ _, ?_⟩
    · intro z hz
      rcases List.mem_append.mp hz with hz | hz
      · exact hFront z hz
      · rw [List.mem_singleton.mp hz]
        have := hPast t (by simp)
        omega
    · intro z hz w hw
      rw [List.mem_singleton.mp hw]
      have := hPast z (by simp [hz])
      omega

theorem Ordered.expired {gone : List Tid} (hOrdered : Ordered tick finalTick (gone ++ l'))
    (hHead : ∀ y, l'.head? = some y → tick + 1 < finalTick y) :
    (∀ y ∈ l', tick + 1 < finalTick y) ∧ Ordered (tick + 1) finalTick l' := by
  have hRest := (List.pairwise_append.mp hOrdered).2.1
  have hLate : ∀ y ∈ l', tick + 1 < finalTick y := by
    cases l' with
    | nil => nofun
    | cons h l' =>
      have hFirst := hHead h rfl
      intro y hy
      rcases List.mem_cons.mp hy with rfl | hy
      · exact hFirst
      · have := (List.pairwise_cons.mp hRest).1 y hy
        omega
  refine ⟨hLate, hRest.imp_of_mem ?_⟩
  intro a b _ hb hab
  have := hLate b hb
  omega

/-- A request that can come: its sender is not delayed, delays are not negative, the tick
counter does not wrap. -/
structure Permitted (s : ClockServer) (pending : Pending) (tid : Tid) (req : ClockReq) :
    Prop where
  known : req.type = notification ∨ req.type = time ∨ req.type = delay ∨ req.type = delayUntil
  free : pending tid = none
  wrap : req.type = notification → s.tick + 1 < 2 ^ 32
  nonneg : req.type = delay → 0 ≤ req.data

/-- If the request delays a task, then either another task is due no earlier, or the last
task in the list is due no later than the first one or at the next notification anyway. -/
structure SafeRequest (s : ClockServer) (pending : Pending) (tid : Tid) (req : ClockReq) :
    Prop extends Permitted s pending tid req where
  safe : ∀ f, requestedTick s req = some f → (∃ x g, pending x = some g ∧ f ≤ g) ∨
    ∀ t h, s.queue.tail = some t → s.queue.next t = some h →
      s.queue.finalTick t ≤ max (s.queue.finalTick h) (s.tick + 1)

def Waits (s : ClockServer) (pending : Pending) : Prop :=
  ∃ l, s.queue.Contains l ∧ Ordered s.tick s.queue.finalTick l ∧
    ∀ x, pending x = if x ∈ l then some (s.queue.finalTick x) else none

theorem Waits.holds {pending : Pending} (h : Waits s pending) :
    ∃ l, Holds s pending l ∧ Ordered s.tick s.queue.finalTick l := by
  obtain ⟨l, hContains, hOrdered, hPending⟩ := h
  exact ⟨l, ⟨hContains, hPending⟩, hOrdered⟩

theorem waits_init : Waits initClockServer fun _ => none :=
  ⟨[], holds_init.contains, List.Pairwise.nil, holds_init.pending_eq⟩

theorem Waits.insert {pending : Pending} (h : Waits s pending)
    (hSafe : SafeRequest s pending tid req) (hTick : requestedTick s req = some f) :
    ∃ q', insertDelayedTask s.queue tid f = some q' ∧
      Waits { s with queue := q' } (pending.record s tid req []) := by
  obtain ⟨l, hHolds, hOrdered⟩ := h.holds
  have hOld (y : Tid) (hy : y ∈ l) : update s.queue.finalTick tid f y = s.queue.finalTick y :=
    update_of_ne (ne_of_mem_of_not_mem hy (hHolds.not_mem hSafe.free)) _ _
  obtain ⟨q', l', hEq, hHolds', hTicks, hInserted⟩ := hHolds.insert hSafe.free hTick
  have hOrdered' : Ordered s.tick (update s.queue.finalTick tid f) l := by
    apply hOrdered.imp_of_mem
    intro a b ha hb hab
    rwa [hOld a ha, hOld b hb]
  have hSafeOrder : SafeOrder s.tick (update s.queue.finalTick tid f) f l := by
    rcases hSafe.safe f hTick with ⟨y, g, hy, hLate⟩ | hEnds
    · left
      obtain ⟨hMem, rfl⟩ := hHolds.mem hy
      exact ⟨y, hMem, by rwa [hOld y hMem]⟩
    · right
      intro head last hHead hLast
      rw [hOld head (List.mem_of_head? hHead), hOld last (List.mem_of_getLast? hLast)]
      obtain ⟨init, rfl⟩ := List.getLast?_eq_some_iff.mp hLast
      apply hEnds last head (hHolds.contains.tail.trans hLast)
      exact (hHolds.contains.ring init last rfl).next_last.trans hHead
  refine ⟨q', hEq, l', hHolds'.contains, ?_, hHolds'.pending_eq⟩
  rw [hTicks]
  exact hInserted.ordered (update_self ..) hOrdered' hSafeOrder

theorem Waits.notify {pending : Pending} (h : Waits s pending)
    (hPermitted : Permitted s pending tid req) (hType : req.type = notification) :
    ∃ s' gone, serveClock s tid req = some (s', tid :: gone) ∧ s'.tick = s.tick + 1 ∧
      Waits s' (pending.record s tid req (tid :: gone)) ∧ gone.Nodup ∧ tid ∉ gone ∧
      ∀ x, x ∈ gone ↔ ∃ g, pending x = some g ∧ g ≤ s.tick + 1 := by
  obtain ⟨l, hHolds, hOrdered⟩ := h.holds
  have hTick : (s.tick + 1) % 2 ^ 32 = s.tick + 1 := Nat.mod_eq_of_lt (hPermitted.wrap hType)
  obtain ⟨q', gone, l', hEq, rfl, hTicks, hHolds', hGone, hHead⟩ :=
    hHolds.expire hPermitted.free hType
  rw [hTick] at hEq hHolds' hGone hHead
  obtain ⟨hLate, hOrdered'⟩ := hOrdered.expired hHead
  have hFree := hHolds.not_mem hPermitted.free
  rw [List.mem_append, not_or] at hFree
  refine ⟨⟨s.tick + 1, q'⟩, gone, hEq, rfl, ?_, ?_, hFree.1, ?_⟩
  · exact ⟨l', hHolds'.contains, by rwa [hTicks], hHolds'.pending_eq⟩
  · exact (List.nodup_append.mp hHolds.contains.nodup).1
  · intro x
    constructor
    · intro hx
      refine ⟨_, ?_, hGone x hx⟩
      rw [hHolds.pending_eq, if_pos (List.mem_append_left _ hx)]
    · rintro ⟨g, hg, hDue⟩
      obtain ⟨hMem, rfl⟩ := hHolds.mem hg
      rcases List.mem_append.mp hMem with hx | hx
      · exact hx
      · exact absurd (hLate x hx) (Nat.not_lt.mpr hDue)

structure Served (s : ClockServer) (pending : Pending) (tid : Tid) (req : ClockReq)
    (s' : ClockServer) (replied : List Tid) : Prop where
  waits : Waits s' (pending.record s tid req replied)
  tick : s'.tick = if req.type = notification then s.tick + 1 else s.tick
  woken : ∀ x f, pending x = some f →
    replied.count x = if req.type = notification ∧ f ≤ s.tick + 1 then 1 else 0
  silent : requestedTick s req ≠ none → replied = []

theorem Waits.serve {pending : Pending} (h : Waits s pending)
    (hSafe : SafeRequest s pending tid req) :
    ∃ s' replied, serveClock s tid req = some (s', replied) ∧
      Served s pending tid req s' replied := by
  have hOther (x : Tid) (f : Nat) (hx : pending x = some f) : x ≠ tid := by
    rintro rfl
    rw [hSafe.free] at hx
    cases hx
  by_cases hNotify : req.type = notification
  · obtain ⟨s', gone, hEq, hTick, hWaits, hNodup, -, hGone⟩ := h.notify hSafe.toPermitted hNotify
    refine ⟨s', _, hEq, hWaits, by rw [hTick, if_pos hNotify], ?_, ?_⟩
    · intro x f hx
      have hMem : x ∈ gone ↔ f ≤ s.tick + 1 := by
        rw [hGone, hx]
        simp
      rw [List.count_cons_of_ne (hOther x f hx).symm, hNodup.count]
      simp only [hMem, hNotify, true_and]
    · intro hTick
      exact absurd (requestedTick_notification hNotify) hTick
  have hQuiet (x : Tid) (f : Nat) :
      (if req.type = notification ∧ f ≤ s.tick + 1 then 1 else 0) = 0 :=
    if_neg fun hBoth => hNotify hBoth.1
  cases hTick : requestedTick s req with
  | some f =>
    obtain ⟨q', hEq, hWaits⟩ := h.insert hSafe hTick
    refine ⟨{ s with queue := q' }, [], ?_, hWaits, by rw [if_neg hNotify],
      fun x f _ => (hQuiet x f).symm, fun _ => rfl⟩
    rw [serveClock_delayed hTick, hEq]
    rfl
  | none =>
    have hTime := serveClock_time tid hSafe.known hNotify hTick
    refine ⟨s, [tid], hTime, ?_, by rw [if_neg hNotify], ?_, fun hSome => absurd hTick hSome⟩
    · rwa [Pending.record_time hSafe.free]
    · intro x f hx
      rw [hQuiet x f, List.count_eq_zero, List.mem_singleton]
      exact hOther x f hx

/-- Without a notification that reaches its final tick, a delayed task keeps waiting. -/
theorem Serves.keeps_waiting {pending pending' : Pending} {reqs : List (Tid × ClockReq)}
    {outs : List (List Tid)} (hServes : Serves SafeRequest s pending reqs outs s' pending')
    (hWaits : Waits s pending) : Waits s' pending' ∧ s.tick ≤ s'.tick ∧
      (pending x = some f → (∀ tick, s.tick < tick → tick ≤ s'.tick → tick < f) →
        (∀ replied ∈ outs, x ∉ replied) ∧ pending' x = some f) := by
  induction hServes with
  | nil => exact ⟨hWaits, le_rfl, fun hx _ => ⟨nofun, hx⟩⟩
  | @cons s s₁ s' pending pending' tid req replied rest outs hOk hServe hRest ih =>
    obtain ⟨_, _, hEq, hServed⟩ := hWaits.serve hOk
    cases hServe.symm.trans hEq
    obtain ⟨hWaits', hMono, hKeep⟩ := ih hServed.waits
    have hTick := hServed.tick
    have hFirst : s.tick ≤ s₁.tick := by
      rw [hTick]
      split <;> omega
    refine ⟨hWaits', by omega, ?_⟩
    intro hx hEarly
    have hNot : ¬(req.type = notification ∧ f ≤ s.tick + 1) := by
      rintro ⟨hNotify, hDue⟩
      rw [if_pos hNotify] at hTick
      have := hEarly (s.tick + 1) (by omega) (by omega)
      omega
    have hMem : x ∉ replied := by
      have hCount := hServed.woken x f hx
      rwa [if_neg hNot, List.count_eq_zero] at hCount
    have hNe : x ≠ tid := by
      rintro rfl
      rw [hOk.free] at hx
      cases hx
    have hStill : pending.record s tid req replied x = some f := by
      rw [Pending.record, if_neg hMem, if_neg hNe, hx]
    obtain ⟨hOuts, hx'⟩ := hKeep hStill fun tick hLow hHigh => hEarly tick (by omega) hHigh
    exact ⟨List.forall_mem_cons.mpr ⟨hMem, hOuts⟩, hx'⟩

/-- Every request that `ok` lets through is served; and after a task has asked to be delayed
until `f`, it gets no reply until the first notification whose tick reaches `f`, and exactly
one reply then. -/
def Timely (ok : ClockServer → Pending → Tid → ClockReq → Prop) (s : ClockServer)
    (pending : Pending) : Prop :=
  ∀ tid req, ok s pending tid req → ∃ s₁ replied, serveClock s tid req = some (s₁, replied) ∧
    ∀ f, requestedTick s req = some f → tid ∉ replied ∧
      ∀ between outs s₂ pending₂,
        Serves ok s₁ (pending.record s tid req replied) between outs s₂ pending₂ →
        (∀ tick, s₁.tick < tick → tick ≤ s₂.tick → tick < f) →
        (∀ replied ∈ outs, tid ∉ replied) ∧
          ∀ notifier req', ok s₂ pending₂ notifier req' → req'.type = notification →
            f ≤ s₂.tick + 1 → ∃ s₃ woken, serveClock s₂ notifier req' = some (s₃, woken) ∧
              woken.count tid = 1

/-- In a run of safe requests the server is timely all the way. -/
theorem timely_of_safe {reqs : List (Tid × ClockReq)} {outs : List (List Tid)}
    {pending : Pending} (hRun : Serves SafeRequest initClockServer (fun _ => none) reqs outs s
      pending) : Timely SafeRequest s pending := by
  intro tid req hOk
  obtain ⟨hWaits, -, -⟩ := hRun.keeps_waiting (x := tid) (f := 0) waits_init
  obtain ⟨s₁, replied, hServe, hServed⟩ := hWaits.serve hOk
  refine ⟨s₁, replied, hServe, ?_⟩
  intro f hTick
  have hSilent : replied = [] := hServed.silent (by rw [hTick]; nofun)
  refine ⟨by simp [hSilent], ?_⟩
  intro between outs' s₂ pending₂ hBetween hEarly
  have hPending : pending.record s tid req replied tid = some f := by
    rw [Pending.record, hSilent, if_neg List.not_mem_nil, if_pos rfl, hTick]
  obtain ⟨hWaits₂, -, hKeep⟩ := hBetween.keeps_waiting hServed.waits
  obtain ⟨hOuts, hStill⟩ := hKeep hPending hEarly
  refine ⟨hOuts, ?_⟩
  intro notifier req' hOk' hNotify hDue
  obtain ⟨s₃, woken, hServe', hServed'⟩ := hWaits₂.serve hOk'
  refine ⟨s₃, woken, hServe', ?_⟩
  rw [hServed'.woken tid f hStill, if_pos ⟨hNotify, hDue⟩]

theorem Permitted.until {pending : Pending} {data : Int} (hFree : pending tid = none) :
    Permitted s pending tid ⟨delayUntil, data⟩ :=
  ⟨Or.inr (Or.inr (Or.inr rfl)), hFree,
    fun hType => absurd hType (show delayUntil ≠ notification by decide),
    fun hType => absurd hType (show delayUntil ≠ delay by decide)⟩

theorem Permitted.notify {pending : Pending} {data : Int} (hFree : pending tid = none)
    (hWrap : s.tick + 1 < 2 ^ 32) : Permitted s pending tid ⟨notification, data⟩ :=
  ⟨Or.inl rfl, hFree, fun _ => hWrap,
    fun hType => absurd hType (show notification ≠ delay by decide)⟩

/-- Three tasks line up, each due before the one that is first, and a notification wakes the
last of them. -/
theorem timely_of_safe_three : ∃ s pending,
    Serves SafeRequest initClockServer (fun _ => none)
      [(1, ⟨delayUntil, 5⟩), (2, ⟨delayUntil, 3⟩), (3, ⟨delay, 1⟩), (9, ⟨notification, 0⟩)]
      [[], [], [], [9, 3]] s pending ∧
    (pending 1 = some 5 ∧ pending 2 = some 3 ∧ pending 3 = none) ∧
    Timely SafeRequest s pending := by
  have hRun : Serves SafeRequest initClockServer (fun _ => none)
      [(1, ⟨delayUntil, 5⟩), (2, ⟨delayUntil, 3⟩), (3, ⟨delay, 1⟩), (9, ⟨notification, 0⟩)]
      [[], [], [], [9, 3]] _ _ :=
    .cons ⟨.until rfl, fun _ _ => Or.inr nofun⟩ rfl
      (.cons ⟨.until rfl, fun _ hTick => Or.inl ⟨1, 5, rfl, by cases hTick; decide⟩⟩ rfl
        (.cons ⟨⟨by decide, rfl, by decide, by decide⟩, fun _ hTick =>
            Or.inl ⟨2, 3, rfl, by cases hTick; decide⟩⟩ rfl
          (.cons ⟨.notify rfl (by decide), fun _ hTick => by cases hTick⟩ rfl (.nil _ _))))
  exact ⟨_, _, hRun, ⟨rfl, rfl, rfl⟩, timely_of_safe hRun⟩
/-- Tasks 1, 2 and 3 wait until ticks 1, 2 and 3, in this order. The last insertion brings
task 2 to the front, and the first notification does not wake task 1. -/
theorem not_timely : ¬Timely Permitted initClockServer fun _ => none := by
  intro hTimely
  obtain ⟨s₁, replied, hServe, hPromise⟩ := hTimely 1 ⟨delayUntil, 1⟩ (.until rfl)
  cases (rfl : serveClock initClockServer 1 ⟨delayUntil, 1⟩ = some _).symm.trans hServe
  obtain ⟨-, hPromise⟩ := hPromise 1 rfl
  obtain ⟨-, hPromise⟩ := hPromise _ _ _ _
    (.cons (.until (by decide) : Permitted _ _ 2 ⟨delayUntil, 2⟩) rfl
      (.cons (.until (by decide) : Permitted _ _ 3 ⟨delayUntil, 3⟩) rfl (.nil _ _)))
    fun _ hLow hHigh => absurd hLow (Nat.not_lt.mpr hHigh)
  obtain ⟨s₃, woken, hServe', hCount⟩ := hPromise 5 ⟨notification, 0⟩
    (.notify (by decide) (by decide)) rfl (by decide)
  cases (rfl : serveClock _ 5 ⟨notification, 0⟩ = some _).symm.trans hServe'
  exact absurd hCount (by decide)

end TrainKernel.User
