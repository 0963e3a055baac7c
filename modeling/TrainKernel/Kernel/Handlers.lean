import TrainKernel.Kernel.Placement
import TrainKernel.Library.Rendezvous

/-!
# Every trap puts the tasks back in place

The ready queues are hidden here: what a handler does to the send queues and to the
places of the tasks is enough to follow the messages. Handlers that hand over no
message leave the send queues, the blocked tasks and their cards alone.
-/

namespace TrainKernel.Kernel

open Function Library.Links Library.Rendezvous

/-- What a task in this place still owes to, or expects from, the message protocol. -/
def Place.phase : Place → Phase TaskPtr
  | .sending r => .sending r
  | .receiving => .receiving
  | .replying r => .replying r
  | _ => .idle

def Placed (k : State) (mail : TaskPtr → List TaskPtr) (place : TaskPtr → Place) : Prop :=
  ∃ lists, (∀ r, lists (.mail r) = mail r) ∧ Placement k lists place

variable {k k' : State} {mail mail' : TaskPtr → List TaskPtr} {place place' : TaskPtr → Place}
variable {t x r s : TaskPtr} {p p' : Place}

namespace Placed

theorem at_place (h : Placed k mail place) (t : TaskPtr) : ∃ lists, At k lists t (place t) :=
  h.imp fun _ hLists => hLists.2.at_place t

theorem fits (h : Placed k mail place) (t : TaskPtr) : Fits (k.card t) t (place t) := by
  obtain ⟨lists, hAt⟩ := h.at_place t
  exact hAt.fits

theorem index (h : Placed k mail place) (ht : place t ≠ .absent) : taskGetIndex (k.card t) = t :=
  (h.fits t).index ht

theorem event_iff (h : Placed k mail place) (t : TaskPtr) (e : Event) :
    k.eventTable e = some t ↔ place t = .awaiting e := by
  obtain ⟨lists, hAt⟩ := h.at_place t
  exact hAt.event e

theorem created (h : Placed k mail place) (ht : place t ≠ .absent) :
    t.val ≠ 0 ∧ t.val < k.nextUniqueTaskId := by
  obtain ⟨lists, hAt⟩ := h.at_place t
  exact hAt.created ht

theorem next_eq_none (h : Placed k mail place) (ht : place t = .running) : k.next t = none := by
  obtain ⟨lists, hAt⟩ := h.at_place t
  rw [ht] at hAt
  exact hAt.loose rfl

theorem quiet (h : Placed k mail place) (hr : place r = .receiving) : mail r = [] := by
  obtain ⟨lists, hMail, hPlaced⟩ := h
  rw [← hMail]
  exact (hPlaced.at_place r).quiet hr

theorem head (h : Placed k mail place) (r : TaskPtr) : (k.sendQueues r).head = (mail r).head? := by
  obtain ⟨lists, hMail, hPlaced⟩ := h
  rw [← hMail]
  exact (hPlaced.linked.family.represents (.mail r)).head

theorem mem_mail_iff (h : Placed k mail place) (s r : TaskPtr) :
    s ∈ mail r ↔ place s = .sending r := by
  obtain ⟨lists, hMail, hPlaced⟩ := h
  rw [← hMail, (hPlaced.at_place s).member]
  cases place s <;> simp [Place.queue]

theorem setMem (h : Placed k mail place) (mem : Mem) : Placed (k.setMem mem) mail place :=
  h.imp fun _ hLists => ⟨hLists.1, hLists.2.setMem mem⟩

theorem modify (h : Placed k mail place) {f : TaskDescriptor → TaskDescriptor} (hf : LinkFree f)
    (hp : (place t).Free) (hp' : p'.Free) (hId : ∀ d, (f d).id = d.id)
    (hStatus : (f (k.card t)).status = p'.status)
    (hOrigin : ∀ r, p' = .replying r → (f (k.card t)).originalReceiverId = r)
    (hQuiet : p' = .receiving → mail t = []) : Placed (k.modify t f) mail (update place t p') :=
  h.imp fun _ hLists => ⟨hLists.1, hLists.2.modify hf hp hp' hId hStatus hOrigin fun hr =>
    (hLists.1 t).trans (hQuiet hr)⟩

theorem modify_running (h : Placed k mail place) {f : TaskDescriptor → TaskDescriptor}
    (hf : LinkFree f) (ht : place t = .running) (hId : ∀ d, (f d).id = d.id)
    (hStatus : ∀ d, (f d).status = d.status) : Placed (k.modify t f) mail place := by
  have hPlaced : Placed (k.modify t f) mail (update place t .running) :=
    h.modify hf (by rw [ht]; trivial) trivial hId (by rw [hStatus, (h.fits t).status, ht])
      (by simp) (by simp)
  rwa [← ht, update_eq_self] at hPlaced

theorem queueTask (h : Placed k mail place) (ht : place t = .running) :
    Placed (queueTask k t) mail (update place t .ready) := by
  obtain ⟨lists, hMail, hPlaced⟩ := h
  refine ⟨_, fun r => ?_, hPlaced.queueTask ht⟩
  rw [joinReady, update_of_ne (by simp), hMail]

theorem addToFront (h : Placed k mail place) (ht : place t = .running) :
    Placed (addToFront k t) mail (update place t .ready) := by
  obtain ⟨lists, hMail, hPlaced⟩ := h
  refine ⟨_, fun r => ?_, hPlaced.addToFront ht⟩
  rw [leadReady, update_of_ne (by simp), hMail]

theorem schedule (h : Placed k mail place) (hs : schedule k = some (t, k')) :
    Placed k' mail (update place t .running) ∧ place t = .ready ∧ k'.card = k.card := by
  obtain ⟨lists, hMail, hPlaced⟩ := h
  obtain ⟨p, l, hl, hReady, hCard, -, -, hNew⟩ := hPlaced.schedule hs
  refine ⟨⟨_, fun r => ?_, hNew⟩, hReady, hCard⟩
  rw [update_of_ne (by simp), hMail]

theorem sendFirst (h : Placed k mail place) (hs : place s = .running) (hr : place r ≠ .receiving)
    {f g : TaskDescriptor → TaskDescriptor} (hf : LinkFree f) (hg : LinkFree g)
    (hIdf : ∀ d, (f d).id = d.id) (hIdg : ∀ d, (g d).id = d.id)
    (hStatus : ∀ d, (g (f d)).status = .sendBlock) :
    Placed ((enqueueSender (k.modify s f) s r).modify s g) (update mail r (mail r ++ [s]))
      (update place s (.sending r)) := by
  obtain ⟨lists, hMail, hPlaced⟩ := h
  refine ⟨_, fun x => ?_, hPlaced.sendFirst hs hr hf hg hIdf hIdg hStatus⟩
  by_cases hx : x = r
  · subst hx
    simp [hMail]
  · simp [hx, hMail]

theorem collect {l : List TaskPtr} (h : Placed k mail place) (hl : mail r = s :: l)
    {f : TaskDescriptor → TaskDescriptor} (hf : LinkFree f) (hId : ∀ d, (f d).id = d.id)
    (hStatus : ∀ d, (f d).status = .replyBlock) (hOrigin : ∀ d, (f d).originalReceiverId = r) :
    Placed ((dequeueSender k s r).modify s f) (update mail r l) (update place s (.replying r)) := by
  obtain ⟨lists, hMail, hPlaced⟩ := h
  refine ⟨_, fun x => ?_, hPlaced.collect ((hMail r).trans hl) hf hId hStatus hOrigin⟩
  by_cases hx : x = r
  · subst hx
    simp
  · simp [hx, hMail]

theorem await {e : Event} (h : Placed k mail place) (ht : place t = .running)
    (he : k.eventTable e = none) :
    Placed { k with eventTable := update k.eventTable e (some t) } mail
      (update place t (.awaiting e)) :=
  h.imp fun _ hLists => ⟨hLists.1, hLists.2.await ht he⟩

theorem release {e : Event} (h : Placed k mail place) (he : k.eventTable e = some t) :
    Placed { k with eventTable := update k.eventTable e none } mail (update place t .running) :=
  h.imp fun _ hLists => ⟨hLists.1, hLists.2.release he⟩

theorem create {id parentId : Nat} {index : TaskPtr} {sp address : Word} (h : Placed k mail place)
    (hIndex : index.val = k.nextUniqueTaskId) (hId : taskGetIndexById id = index)
    (hPos : 0 < k.nextUniqueTaskId) :
    Placed { k.modify index (fun d => { d with id, parentId, sp, next := none }) with
      nextUniqueTaskId := k.nextUniqueTaskId + 1, currentStackAddress := address } mail
      (update place index .running) :=
  h.imp fun _ hLists => ⟨hLists.1, hLists.2.create hIndex hId hPos⟩

theorem absent_of_fresh (h : Placed k mail place) (ht : k.nextUniqueTaskId ≤ t.val) :
    place t = .absent := by
  obtain ⟨lists, -, hPlaced⟩ := h
  exact hPlaced.absent_of_fresh ht

theorem taskExit (h : Placed k mail place) (ht : place t = .running) :
    Placed (taskExit k t) mail (update place t .absent) :=
  h.imp fun _ hLists => ⟨hLists.1, hLists.2.taskExit ht⟩

end Placed

/-- The send queues, the blocked tasks and their cards stay as they are. -/
structure Keeps (k : State) (mail : TaskPtr → List TaskPtr) (place : TaskPtr → Place)
    (k' : State) (place' : TaskPtr → Place) : Prop where
  placed : Placed k' mail place'
  phase : ∀ x, (place' x).phase = (place x).phase
  card : ∀ x, (place x).phase ≠ .idle → k'.card x = k.card x

theorem Keeps.trans {k'' : State} {place'' : TaskPtr → Place} (h : Keeps k mail place k' place')
    (h' : Keeps k' mail place' k'' place'') : Keeps k mail place k'' place'' where
  placed := h'.placed
  phase x := (h'.phase x).trans (h.phase x)
  card x hx := (h'.card x (by rwa [h.phase])).trans (h.card x hx)

theorem phase_update (ht : (place t).phase = .idle) (hp : p.phase = .idle) (x : TaskPtr) :
    (update place t p x).phase = (place x).phase := by
  by_cases hx : x = t
  · subst hx
    rw [update_self, hp, ht]
  · rw [update_of_ne hx]

theorem Keeps.queueTask (h : Placed k mail place) (ht : place t = .running) :
    Keeps k mail place (queueTask k t) (update place t .ready) :=
  ⟨h.queueTask ht, phase_update (by rw [ht]; rfl) rfl, fun _ _ => by rw [queueTask_card]⟩

theorem Keeps.addToFront (h : Placed k mail place) (ht : place t = .running) :
    Keeps k mail place (addToFront k t) (update place t .ready) :=
  ⟨h.addToFront ht, phase_update (by rw [ht]; rfl) rfl, fun _ _ => by rw [addToFront_card]⟩

theorem Keeps.taskSetRet (h : Placed k mail place) (ht : place t = .running) (ret : Word) :
    Keeps k mail place (taskSetRet k t ret) place := by
  refine ⟨h.modify_running (fun _ _ => rfl) ht (fun _ => rfl) fun _ => rfl, fun _ => rfl, ?_⟩
  intro x hx
  have hxt : x ≠ t := by
    rintro rfl
    exact hx (by rw [ht]; rfl)
  rw [Kernel.taskSetRet, card_modify _ _ fun _ _ => rfl, update_of_ne hxt]

theorem Keeps.finish (h : Placed k mail place) (ht : place t = .running) (ret : Word) :
    Keeps k mail place (finish k t ret) (update place t .ready) :=
  (Keeps.taskSetRet h ht ret).trans (Keeps.queueTask (Keeps.taskSetRet h ht ret).placed ht)

theorem Keeps.congr (h : Placed k mail place) (hSame : SameTables k k') :
    Keeps k mail place k' place :=
  ⟨h.imp fun _ hLists => ⟨hLists.1, hLists.2.congr hSame⟩, fun _ => rfl,
    fun _ _ => by rw [hSame.card]⟩

theorem setUARTCtrl_same (k : State) (event : Event) (val : Bool) :
    SameTables k (setUARTCtrl k event val) := by
  simp only [setUARTCtrl]
  split
  · exact ⟨rfl, rfl, rfl, rfl, rfl, rfl⟩
  split
  · exact ⟨rfl, rfl, rfl, rfl, rfl, rfl⟩
  split
  · exact ⟨rfl, rfl, rfl, rfl, rfl, rfl⟩
  split <;> exact ⟨rfl, rfl, rfl, rfl, rfl, rfl⟩

theorem awaitInterrupt_cases (k : State) (active : TaskPtr) (event : Word) :
    awaitInterrupt k active event = (-1, k) ∨ ∃ (e : Event) (k₁ : State),
      event.toNat = e.val ∧ SameTables k k₁ ∧ awaitInterrupt k active event =
        (0, { k₁ with eventTable := update k₁.eventTable e (some active) }) := by
  rw [awaitInterrupt]
  split
  · exact Or.inl rfl
  · refine Or.inr ⟨_, _, rfl, ?_, rfl⟩
    split
    · exact ⟨rfl, rfl, rfl, rfl, rfl, rfl⟩
    · exact setUARTCtrl_same ..

theorem queueTask_setEvents (k : State) (t : TaskPtr) (table : Event → Option TaskPtr) :
    { queueTask k t with eventTable := table } = queueTask { k with eventTable := table } t := by
  simp only [queueTask]
  split <;> rfl

theorem Keeps.unblock {e : Event} (h : Placed k mail place) (he : k.eventTable e = some t)
    (ret : Word) : Keeps k mail place (unblock k e ret) (update place t .ready) := by
  have hReleased : Placed { k with eventTable := update k.eventTable e none } mail
      (update place t .running) := h.release he
  have hRunning : update place t .running t = .running := update_self ..
  have hPlace : place t = .awaiting e := (h.event_iff t e).mp he
  have hKeeps : Keeps k mail place ({ k with eventTable := update k.eventTable e none } : State)
      (update place t .running) :=
    ⟨hReleased, phase_update (by rw [hPlace]; rfl) rfl, fun _ _ => rfl⟩
  have hFinish := hKeeps.trans (Keeps.finish hReleased hRunning ret)
  rw [update_idem] at hFinish
  have hEq : Kernel.unblock k e ret =
      Kernel.finish { k with eventTable := update k.eventTable e none } t ret := by
    simp only [Kernel.unblock, he, Kernel.finish]
    rw [queueTask_setEvents, queueTask_eventTable]
    rfl
  rwa [hEq]

/-- An interrupt makes at most one waiting task ready, and touches device state besides. -/
theorem handleInterrupt_cases {hw : Hardware} (h : handleInterrupt k hw = some k') :
    SameTables k k' ∨ ∃ k₁ e ret, SameTables k k₁ ∧ SameTables (unblock k₁ e ret) k' := by
  have hRefl : ∀ k : State, SameTables k k := fun _ => ⟨rfl, rfl, rfl, rfl, rfl, rfl⟩
  have hFlags : ∀ (k : State) (cts rdy : Int),
      SameTables k { k with ctsOn := cts, xmitRdy := rdy } :=
    fun _ _ _ => ⟨rfl, rfl, rfl, rfl, rfl, rfl⟩
  rw [handleInterrupt] at h
  split at h
  · cases h
    exact Or.inr ⟨k, _, _, hRefl k, hRefl _⟩
  split at h
  · split at h
    · have hModem (cts : Int) (hCts : (if cts ≠ 0 ∧ k.xmitRdy ≠ 0 then
          some (unblock { k with ctsOn := 0, xmitRdy := 0 } uart1XmitEvent
            (uart1Base + uartDataOffset)) else some { k with ctsOn := cts }) = some k') :
          SameTables k k' ∨ ∃ k₁ e ret, SameTables k k₁ ∧ SameTables (unblock k₁ e ret) k' := by
        split at hCts
        · cases hCts
          exact Or.inr ⟨_, _, _, hFlags k 0 0, hRefl _⟩
        · cases hCts
          exact Or.inl (hFlags k cts k.xmitRdy)
      exact hModem _ h
    split at h
    · dsimp only at h
      have hCtrl := setUARTCtrl_same k uart1XmitEvent false
      split at h
      · cases h
        refine Or.inr ⟨_, _, _, ?_, hRefl _⟩
        exact ⟨hCtrl.tasks, hCtrl.readyQueues, hCtrl.sendQueues, hCtrl.queueStatus,
          hCtrl.eventTable, hCtrl.nextUniqueTaskId⟩
      · cases h
        exact Or.inl ⟨hCtrl.tasks, hCtrl.readyQueues, hCtrl.sendQueues, hCtrl.queueStatus,
          hCtrl.eventTable, hCtrl.nextUniqueTaskId⟩
    split at h
    · split at h
      · cases h
        exact Or.inl (hRefl k)
      · cases h
        exact Or.inr ⟨k, _, _, hRefl k, setUARTCtrl_same ..⟩
    · cases h
      exact Or.inl (hRefl k)
  split at h
  · split at h
    · cases h
      exact Or.inl (hRefl k)
    · cases h
      exact Or.inr ⟨k, _, _, hRefl k, setUARTCtrl_same ..⟩
  split at h
  · cases h
    exact Or.inr ⟨_, _, _, setUARTCtrl_same .., hRefl _⟩
  split at h
  · cases h
    exact Or.inl (hRefl k)
  · cases h

theorem Keeps.handleInterrupt {hw : Hardware} (h : Placed k mail place)
    (hOnly : ∀ x, place x = .running ↔ x = t) (hHandle : handleInterrupt k hw = some k') :
    ∃ place', Keeps k mail place k' place' ∧ (∀ x, place' x = .running ↔ x = t) ∧
      ∀ x, place' x = .absent ↔ place x = .absent := by
  have hUnchanged (k' : State) (hSame : SameTables k k') : ∃ place', Keeps k mail place k' place' ∧
      (∀ x, place' x = .running ↔ x = t) ∧ ∀ x, place' x = .absent ↔ place x = .absent :=
    ⟨place, Keeps.congr h hSame, hOnly, fun _ => Iff.rfl⟩
  rcases handleInterrupt_cases hHandle with hSame | ⟨k₁, e, ret, hSame, hSame'⟩
  · exact hUnchanged k' hSame
  have hKeeps := Keeps.congr h hSame
  cases hEvent : k₁.eventTable e with
  | none =>
    rw [Kernel.unblock, hEvent] at hSame'
    exact ⟨place, hKeeps.trans (Keeps.congr hKeeps.placed hSame'), hOnly, fun _ => Iff.rfl⟩
  | some td =>
    have hWoken := hKeeps.trans (Keeps.unblock hKeeps.placed hEvent ret)
    have hPlace : place td = .awaiting e := (hKeeps.placed.event_iff td e).mp hEvent
    refine ⟨_, hWoken.trans (Keeps.congr hWoken.placed hSame'), fun x => ?_, fun x => ?_⟩
    · by_cases hx : x = td
      · subst hx
        rw [update_self, ← hOnly, hPlace]
        exact iff_of_false (by simp) (by simp)
      · rw [update_of_ne hx]
        exact hOnly x
    · by_cases hx : x = td
      · subst hx
        rw [update_self, hPlace]
        exact iff_of_false (by simp) (by simp)
      · rw [update_of_ne hx]

theorem Keeps.taskCreate (h : Placed k mail place) (hPos : 0 < k.nextUniqueTaskId)
    (priority : Int) (code : Word) (parentId : Nat) :
    ((taskCreate k priority code parentId).1 < 0 ∧ (taskCreate k priority code parentId).2 = k) ∨
    ∃ (id : Nat) (index : TaskPtr), (taskCreate k priority code parentId).1 = Int.ofNat id ∧
      taskGetIndexById id = index ∧ index.val ≠ 0 ∧ place index = .absent ∧
      Keeps k mail place (taskCreate k priority code parentId).2 (update place index .running) := by
  apply (taskCreate_cases k priority code parentId).imp_right
  rintro ⟨id, index, sp, address, hIndex, hId, hEq⟩
  have hAbsent : place index = .absent := h.absent_of_fresh hIndex.ge
  refine ⟨id, index, by rw [hEq], hId, by omega, hAbsent, ?_⟩
  rw [hEq]
  refine ⟨h.create hIndex hId hPos, phase_update (by rw [hAbsent]; rfl) rfl, ?_⟩
  intro x hx
  have hNe : x ≠ index := by
    rintro rfl
    exact hx (by rw [hAbsent]; rfl)
  simp only [State.card, State.modify, update_of_ne hNe]

/-! ## Traps that hand over messages -/

namespace Placed

variable {call : Syscall}

theorem handleSend_receiveFirst (h : Placed k mail place) (hs : place s = .running)
    (hr : place r = .receiving) (hTarget : taskGetTDByIndex call.arg1.toInt = some r) :
    Placed (handleSend k s call) mail (update (update place s (.replying r)) r .ready) ∧
      (handleSend k s call).card = update (update k.card s
        (awaitReply call.arg4 call.arg5 r (k.card s))) r (takeMessage call.arg3 (k.card r)) ∧
      (handleSend k s call).mem = transfer k.mem (k.card r).recvBuf call.arg2
        (if call.arg3 < (k.card r).recvLen then call.arg3 else (k.card r).recvLen)
        (k.card r).sendId s := by
  have hsr : r ≠ s := by
    rintro rfl
    simp [hr] at hs
  have hStatus : (k.card r).status = .receiveBlock := by
    rw [(h.fits r).status, hr]
    rfl
  have hEq := Kernel.handleSend_receiveFirst hTarget (h.next_eq_none hs) hStatus hsr.symm
  rw [h.index (by simp [hs]), h.index (by simp [hr])] at hEq
  generalize transfer k.mem (k.card r).recvBuf call.arg2
    (if call.arg3 < (k.card r).recvLen then call.arg3 else (k.card r).recvLen)
    (k.card r).sendId s = mem at hEq ⊢
  have hSent : Placed ((k.setMem mem).modify s (awaitReply call.arg4 call.arg5 r)) mail
      (update place s (.replying r)) :=
    (h.setMem mem).modify (fun _ _ => rfl) (by rw [hs]; trivial) trivial (fun _ => rfl) rfl
      (fun _ hOrigin => by rw [awaitReply, Place.replying.inj hOrigin]) (by simp)
  have hTaken : Placed (((k.setMem mem).modify s (awaitReply call.arg4 call.arg5 r)).modify r
      (takeMessage call.arg3)) mail (update (update place s (.replying r)) r .running) :=
    hSent.modify (fun _ _ => rfl) (by rw [update_of_ne hsr, hr]; trivial) trivial (fun _ => rfl)
      rfl (by simp) (by simp)
  rw [hEq]
  refine ⟨?_, ?_, queueTask_mem _ r⟩
  · have hReady := hTaken.queueTask (update_self ..)
    rwa [update_idem] at hReady
  · rw [queueTask_card, card_modify _ _ fun _ _ => rfl, card_modify _ _ fun _ _ => rfl,
      update_of_ne hsr]
    rfl

theorem handleSend_sendFirst (h : Placed k mail place) (hs : place s = .running)
    (hr : place r ≠ .receiving) (hTarget : taskGetTDByIndex call.arg1.toInt = some r) :
    Placed (handleSend k s call) (update mail r (mail r ++ [s])) (update place s (.sending r)) ∧
      (handleSend k s call).card = update k.card s
        (depositMessage call.arg2 call.arg3 (awaitReceive call.arg4 call.arg5 (k.card s))) := by
  have hNot : ∀ x, place x ≠ .receiving → (k.card x).status ≠ .receiveBlock := by
    intro x hx
    rw [(h.fits x).status]
    cases hp : place x <;> simp [hp, Place.status] at hx ⊢
  have hEq := Kernel.handleSend_sendFirst hTarget (h.next_eq_none hs) (hNot r hr)
    (hNot s (by simp [hs]))
  rw [hEq]
  refine ⟨h.sendFirst hs hr (fun _ _ => rfl) (fun _ _ => rfl) (fun _ => rfl) (fun _ => rfl)
    fun _ => rfl, ?_⟩
  rw [card_modify _ _ fun _ _ => rfl, enqueueSender_card, card_modify _ _ fun _ _ => rfl,
    update_self, update_idem]

variable (call) in
theorem handleReceive_empty (h : Placed k mail place) (hr : place r = .running)
    (hMail : mail r = []) :
    Placed (handleReceive k r call) mail (update place r .receiving) ∧
      (handleReceive k r call).card =
        update k.card r (awaitMessage call.arg1 call.arg2 call.arg3 (k.card r)) := by
  have hHead : (k.sendQueues (taskGetIndex (k.card r))).head = none := by
    rw [h.index (by simp [hr]), h.head, hMail]
    rfl
  rw [Kernel.handleReceive_empty hHead]
  exact ⟨h.modify (fun _ _ => rfl) (by rw [hr]; trivial) trivial (fun _ => rfl) rfl (by simp)
    fun _ => hMail, card_modify _ _ fun _ _ => rfl⟩

variable (call) in
theorem handleReceive_queued {l : List TaskPtr} (h : Placed k mail place) (hr : place r = .running)
    (hMail : mail r = s :: l) :
    Placed (handleReceive k r call) (update mail r l)
        (update (update place s (.replying r)) r .ready) ∧
      (handleReceive k r call).card = update (update k.card s (collectMessage r (k.card s))) r
        (receiveReady (k.card s).sendLen (k.card r)) ∧
      (handleReceive k r call).mem = transfer k.mem call.arg2 (k.card s).sendBuf
        (if call.arg3 < (k.card s).sendLen then call.arg3 else (k.card s).sendLen) call.arg1 s := by
  have hs : place s = .sending r := (h.mem_mail_iff s r).mp (by simp [hMail])
  have hsr : r ≠ s := by
    rintro rfl
    simp [hr] at hs
  have hHead : (k.sendQueues r).head = some s := by
    rw [h.head, hMail]
    rfl
  have hEq : handleReceive k r call = _ :=
    Kernel.handleReceive_queued (h.index (by simp [hr])) hHead hsr.symm
  rw [h.index (by simp [hs])] at hEq
  generalize transfer k.mem call.arg2 (k.card s).sendBuf
    (if call.arg3 < (k.card s).sendLen then call.arg3 else (k.card s).sendLen) call.arg1 s = mem
    at hEq ⊢
  have hCollected : Placed (((dequeueSender k s r).setMem mem).modify s (collectMessage r))
      (update mail r l) (update place s (.replying r)) :=
    (h.collect hMail (f := collectMessage r) (fun _ _ => rfl) (fun _ => rfl) (fun _ => rfl)
      fun _ => rfl).setMem mem
  have hRunning : update place s (.replying r) r = .running := by rw [update_of_ne hsr, hr]
  have hReturned := hCollected.modify (t := r) (f := receiveReady (k.card s).sendLen)
    (fun _ _ => rfl) (by rw [hRunning]; trivial) (show Place.running.Free from trivial)
    (fun _ => rfl) rfl (by simp) (by simp)
  rw [hEq]
  refine ⟨?_, ?_, queueTask_mem _ r⟩
  · have hReady := hReturned.queueTask (update_self ..)
    rwa [update_idem] at hReady
  · rw [queueTask_card, card_modify _ _ fun _ _ => rfl, card_modify _ _ fun _ _ => rfl,
      setMem_card, dequeueSender_card, update_of_ne hsr]

theorem handleReply_answers (h : Placed k mail place) (hr : place r = .running)
    (hs : place s = .replying r) (hTarget : taskGetTDByIndex call.arg1.toInt = some s) :
    Placed (handleReply k r call) mail (update (update place s .ready) r .ready) ∧
      (handleReply k r call).card = update (update k.card r
        (receiveReady (if (k.card s).recvLen < call.arg3 then -4 else 0) (k.card r))) s
        (takeReply call.arg3 (k.card s)) ∧
      (handleReply k r call).mem = memcpy k.mem (k.card s).recvBuf call.arg2
        (if (k.card s).recvLen < call.arg3 then (k.card s).recvLen else call.arg3) := by
  have hsr : s ≠ r := by
    rintro rfl
    simp [hr] at hs
  have hStatus : (k.card s).status = .replyBlock := by
    rw [(h.fits s).status, hs]
    rfl
  have hOrigin : (k.card s).originalReceiverId = taskGetIndex (k.card r) := by
    rw [h.index (by simp [hr])]
    exact (h.fits s).origin r hs
  have hEq := Kernel.handleReply_answers hTarget hStatus hOrigin hsr
  generalize memcpy k.mem (k.card s).recvBuf call.arg2
    (if (k.card s).recvLen < call.arg3 then (k.card s).recvLen else call.arg3) = mem at hEq ⊢
  generalize (if (k.card s).recvLen < call.arg3 then (-4 : Word) else 0) = ret at hEq ⊢
  have hReturned : Placed ((k.setMem mem).modify r (receiveReady ret)) mail place := by
    have hModified := (h.setMem mem).modify (t := r) (f := receiveReady ret) (fun _ _ => rfl)
      (by rw [hr]; trivial) (show Place.running.Free from trivial) (fun _ => rfl) rfl (by simp)
      (by simp)
    rwa [← hr, update_eq_self] at hModified
  have hAnswered := hReturned.modify (t := s) (f := takeReply call.arg3) (fun _ _ => rfl)
    (by rw [hs]; trivial) (show Place.running.Free from trivial) (fun _ => rfl) rfl (by simp)
    (by simp)
  rw [hEq]
  refine ⟨?_, ?_, ?_⟩
  · have hFirst := hAnswered.queueTask (update_self ..)
    rw [update_idem] at hFirst
    exact hFirst.queueTask (by rw [update_of_ne hsr.symm, hr])
  · rw [queueTask_card, queueTask_card, card_modify _ _ fun _ _ => rfl,
      card_modify _ _ fun _ _ => rfl, setMem_card, update_of_ne hsr]
  · rw [queueTask_mem, queueTask_mem]
    rfl

end Placed

end TrainKernel.Kernel
