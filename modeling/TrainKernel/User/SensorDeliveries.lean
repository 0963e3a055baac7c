import TrainKernel.Library.Runs
import TrainKernel.User.QueueContents
import TrainKernel.User.SensorServer

/-!
# The way of a delivery

A trigger that is attributed goes to the engineer courier at once if the courier waits, and
through the queue otherwise. The courier waits only while the queue is empty.
-/

namespace TrainKernel.User

open Library.Runs

variable {data : BitVec 8} {seq time tid : Nat} {sensorIndex : Int} {s s' : SensorServer}
variable {is : List Nat} {sensorBuf : Nat → SensorDelivery} {req : SensorRequest}
variable {out : List SensorOutput}

/-- The delivery for a trigger, if there is one, and the table after it. -/
def attributeTrigger (attrs : List Attribution) (sensorIndex : Int) (timestamp : Nat) :
    List Attribution × List SensorDelivery :=
  let i := attrIndex attrs sensorIndex
  if 0 ≤ i then
    let attrs := attrs.modify i.toNat (·.hit timestamp)
    let engineerTid := (attrs[i.toNat]?.getD initAttribution).engineerTid
    (attrs, [⟨engineerTid, sensorTrigger, sensorIndex, timestamp⟩])
  else (attrs, [])

/-- The sensor that bit `i` of a byte stands for. -/
def sensorOfBit (seq i : Nat) : Int :=
  getSensorIndex (seq / 2 : Nat) (8 - i + if seq % 2 = 0 then 0 else 8)

def attributeBits (data : BitVec 8) (seq time : Nat) :
    List Nat → List Attribution → List Attribution × List SensorDelivery
  | [], attrs => (attrs, [])
  | i :: rest, attrs =>
    let (attrs, first) :=
      if data.getLsbD i then attributeTrigger attrs (sensorOfBit seq i) time else (attrs, [])
    let (attrs, later) := attributeBits data seq time rest attrs
    (attrs, first ++ later)

/-- The attributed triggers of a message, in the order in which they are attributed. -/
def attributed (attrs : List Attribution) : SensorRequest → List SensorDelivery
  | .newSensor data seq time => (attributeBits data seq time (List.range 8) attrs).2
  | _ => []

def SensorOutput.delivery : SensorOutput → List SensorDelivery
  | .deliver _ delivery => [delivery]
  | .reply _ => []

/-- The courier waits only while there is nothing to deliver. -/
structure SensorServer.Sound (s : SensorServer) : Prop where
  wellFormed : s.sensorQueue.WellFormed
  size : s.sensorQueue.size = 64
  waits : s.engineerCourierTid ≠ 0 → s.sensorQueue.contents = []

/-- From one state to another, with what is attributed and what is put out on the way. -/
structure Passes (s : SensorServer) (deliveries : List SensorDelivery) (s' : SensorServer)
    (out : List SensorOutput) : Prop where
  sound : s'.Sound
  conserves : s.sensorQueue.contents ++ deliveries =
    out.flatMap SensorOutput.delivery ++ s'.sensorQueue.contents

theorem Passes.trans {s₁ s₂ s₃ : SensorServer} {d d' : List SensorDelivery}
    {out out' : List SensorOutput} (h : Passes s₁ d s₂ out) (h' : Passes s₂ d' s₃ out') :
    Passes s₁ (d ++ d') s₃ (out ++ out') := by
  refine ⟨h'.sound, ?_⟩
  rw [← List.append_assoc, List.flatMap_append]
  exact balance_concat h.conserves h'.conserves

theorem SensorServer.Sound.passes_nothing (h : s.Sound) : Passes s [] s [] := ⟨h, by simp⟩

theorem triggerSensor_attrs (s : SensorServer) (sensorIndex : Int) (time : Nat) :
    (triggerSensor s sensorIndex time).1.attrs =
      (attributeTrigger s.attrs sensorIndex time).1 := by
  rw [triggerSensor, attributeTrigger]
  dsimp only
  split_ifs
  · rw [attributeTo]
    dsimp only
    split_ifs <;> rfl
  · rfl

/-- Nothing is put out while the courier is on its way. -/
theorem triggerSensor_silent (sensorIndex : Int) (time : Nat) (h : s.engineerCourierTid = 0) :
    (triggerSensor s sensorIndex time).2 = [] ∧
      (triggerSensor s sensorIndex time).1.engineerCourierTid = 0 := by
  rw [triggerSensor]
  split_ifs
  · rw [attributeTo]
    simp [h]
  · exact ⟨rfl, h⟩

theorem triggerSensor_passes (sensorIndex : Int) (time : Nat) (h : s.Sound)
    (hRoom : s.engineerCourierTid = 0 → s.sensorQueue.contents.length +
      (attributeTrigger s.attrs sensorIndex time).2.length ≤ 63) :
    Passes s (attributeTrigger s.attrs sensorIndex time).2
      (triggerSensor s sensorIndex time).1 (triggerSensor s sensorIndex time).2 := by
  rw [attributeTrigger] at hRoom ⊢
  rw [triggerSensor]
  dsimp only at hRoom ⊢
  split_ifs at hRoom ⊢ with hSome
  · rw [attributeTo]
    dsimp only
    split_ifs with hCourier
    · exact ⟨⟨h.wellFormed, h.size, fun hZero => absurd rfl hZero⟩,
        by simp [h.waits hCourier, SensorOutput.delivery]⟩
    · have hLess := hRoom (not_not.mp hCourier)
      have hKept (d : SensorDelivery) : (s.sensorQueue.enqueue d).2 = true := by
        rw [h.wellFormed.kept_iff, h.size]
        exact Nat.lt_succ_of_le hLess
      refine ⟨⟨h.wellFormed.enqueue _, ?_, fun hWaits => absurd hWaits hCourier⟩, ?_⟩
      · rw [← h.size]
        exact RingBuffer.size_enqueue _ _
      · exact (h.wellFormed.contents_enqueue (hKept _)).symm
  · exact h.passes_nothing

theorem newSensorLoop_cons (i : Nat) : newSensorLoop data seq time (i :: is) s =
    let (s, sent) := if data.getLsbD i then triggerSensor s (sensorOfBit seq i) time else (s, [])
    let (s, later) := newSensorLoop data seq time is s
    (s, sent ++ later) := by
  rw [newSensorLoop]
  by_cases hBit : data.getLsbD i
  · rw [if_pos hBit, if_pos hBit, sensorOfBit]
  · rw [if_neg hBit, if_neg hBit]
    rfl

theorem newSensorLoop_silent (h : s.engineerCourierTid = 0) :
    (newSensorLoop data seq time is s).2 = [] := by
  induction is generalizing s with
  | nil => rfl
  | cons i is ih =>
    rw [newSensorLoop_cons]
    split_ifs
    · obtain ⟨hSilent, hCourier⟩ := triggerSensor_silent (sensorOfBit seq i) time h
      simp [hSilent, ih hCourier]
    · simp [ih h]

theorem newSensorLoop_passes (h : s.Sound)
    (hRoom : s.sensorQueue.contents.length + (attributeBits data seq time is s.attrs).2.length ≤
      ((newSensorLoop data seq time is s).2.flatMap SensorOutput.delivery).length + 63) :
    Passes s (attributeBits data seq time is s.attrs).2
      (newSensorLoop data seq time is s).1 (newSensorLoop data seq time is s).2 := by
  induction is generalizing s with
  | nil => exact h.passes_nothing
  | cons i is ih =>
    rw [newSensorLoop_cons, attributeBits] at hRoom ⊢
    split_ifs at hRoom ⊢ with hBit
    · have hAttrs := triggerSensor_attrs s (sensorOfBit seq i) time
      dsimp only at hRoom ⊢
      rw [← hAttrs] at hRoom ⊢
      have hFirst := triggerSensor_passes (sensorOfBit seq i) time h ?_
      · have hLength := congrArg List.length hFirst.conserves
        simp only [List.length_append, List.flatMap_append] at hRoom hLength
        exact hFirst.trans (ih hFirst.sound (by omega))
      · intro hCourier
        obtain ⟨hSilent, hCourier'⟩ := triggerSensor_silent (sensorOfBit seq i) time hCourier
        rw [hSilent, newSensorLoop_silent hCourier'] at hRoom
        simp only [List.length_append, List.append_nil, List.flatMap_nil, List.length_nil] at hRoom
        omega
    · exact ih h hRoom

/-- A claim changes the attributions only. -/
theorem SensorServer.Sound.passes_claim (h : s.Sound) {r : Except SensorFault (List Attribution)}
    (hServe : (do
      let attrs ← r
      return ({ s with attrs }, [.reply tid])) = Except.ok (s', out)) : Passes s [] s' out := by
  cases r with
  | error fault => cases hServe
  | ok attrs =>
    obtain ⟨rfl, rfl⟩ := Prod.mk.inj (Except.ok.inj hServe)
    exact ⟨⟨h.wellFormed, h.size, h.waits⟩, by simp [SensorOutput.delivery]⟩

theorem serveSensors_passes (h : s.Sound) (hServe : serveSensors s tid req = .ok (s', out))
    (hRoom : s.sensorQueue.contents.length + (attributed s.attrs req).length ≤
      (out.flatMap SensorOutput.delivery).length + 63) :
    Passes s (attributed s.attrs req) s' out := by
  cases req with
  | newSensor data seq time =>
    obtain ⟨rfl, rfl⟩ := Prod.mk.inj (Except.ok.inj hServe)
    have hReply : (SensorOutput.reply tid).delivery = [] := rfl
    rw [List.flatMap_append, List.flatMap_singleton, hReply, List.append_nil] at hRoom
    have hLoop := newSensorLoop_passes h hRoom
    refine ⟨hLoop.sound, ?_⟩
    rw [List.flatMap_append, List.flatMap_singleton, hReply, List.append_nil]
    exact hLoop.conserves
  | initialClaim index engineerTid => exact h.passes_claim hServe
  | claimSensor claim => exact h.passes_claim hServe
  | requestSensor =>
    rw [serveSensors] at hServe
    cases hNext : s.sensorQueue.dequeue with
    | none =>
      rw [hNext] at hServe
      obtain ⟨rfl, rfl⟩ := Prod.mk.inj (Except.ok.inj hServe)
      have hEmpty := h.wellFormed.dequeue_eq_none_iff.mp hNext
      exact ⟨⟨h.wellFormed, h.size, fun _ => hEmpty⟩, by simp [attributed]⟩
    | some r =>
      obtain ⟨delivery, sensorQueue⟩ := r
      obtain ⟨hContents, hWellFormed, hSize⟩ := h.wellFormed.contents_dequeue hNext
      rw [hNext] at hServe
      dsimp only at hServe
      split_ifs at hServe with hCourier
      obtain ⟨rfl, rfl⟩ := Prod.mk.inj (Except.ok.inj hServe)
      refine ⟨⟨hWellFormed, hSize.trans h.size, fun hWaits => absurd hCourier hWaits⟩, ?_⟩
      simp [attributed, SensorOutput.delivery, hContents]

theorem SensorServer.Sound.requested (h : s.Sound) (tid : Nat) :
    ∃ s' out, serveSensors s tid .requestSensor = .ok (s', out) := by
  rw [serveSensors]
  cases hNext : s.sensorQueue.dequeue with
  | none => exact ⟨_, _, rfl⟩
  | some r =>
    have hCourier : s.engineerCourierTid = 0 := by
      by_contra hWaits
      have hNone := h.wellFormed.dequeue_eq_none_iff.mpr (h.waits hWaits)
      cases hNone.symm.trans hNext
    simp [hCourier]

/-- What comes out for a message: the triggers that are attributed, and what the server sends. -/
def sensorMachine (sensorBuf : Nat → SensorDelivery) :
    Machine SensorServer (Nat × SensorRequest) (List SensorDelivery × List SensorOutput) where
  start := initSensorServer sensorBuf
  step s i s' o := serveSensors s i.1 i.2 = .ok (s', o.2) ∧ o.1 = attributed s.attrs i.2

abbrev SensorHistory := History (Nat × SensorRequest) (List SensorDelivery × List SensorOutput)

def SensorHistory.attributed (h : SensorHistory) : List SensorDelivery := h.flatMap (·.2.1)

def SensorHistory.delivered (h : SensorHistory) : List SensorDelivery :=
  h.flatMap (·.2.2.flatMap SensorOutput.delivery)

def SensorHistory.AtMostUndelivered (n : Nat) (h : SensorHistory) : Prop :=
  h.attributed.length ≤ h.delivered.length + n

/-- Messages come from any task and in any order. -/
def AnyMessage (_ : SensorHistory) (_ : SensorServer) (_ : Nat × SensorRequest) : Prop := True

theorem sensor_run_sound {h : SensorHistory}
    (hRun : (sensorMachine sensorBuf).Run AnyMessage h s)
    (hFew : ∀ h' : SensorHistory, h' <+: h → h'.AtMostUndelivered 63) :
    s.Sound ∧ h.attributed = h.delivered ++ s.sensorQueue.contents := by
  refine hRun.invariant (fun (h : SensorHistory) s =>
    (∀ h' : SensorHistory, h' <+: h → h'.AtMostUndelivered 63) →
      s.Sound ∧ h.attributed = h.delivered ++ s.sensorQueue.contents) ?_ ?_ hFew
  · intro _
    have hWellFormed : (initSensorServer sensorBuf).sensorQueue.WellFormed :=
      ⟨Nat.succ_pos 63, Nat.succ_pos 63⟩
    refine ⟨⟨hWellFormed, rfl, fun hWaits => absurd rfl hWaits⟩, ?_⟩
    exact (hWellFormed.contents_eq_nil_iff.mpr rfl).symm
  · rintro h s ⟨tid, req⟩ s' ⟨atts, out⟩ ih - ⟨hServe, hAtts⟩ hFew
    dsimp only at hServe hAtts
    subst hAtts
    obtain ⟨hSound, hConserves⟩ :=
      ih fun h' hPrefix => hFew h' (hPrefix.trans (List.prefix_append ..))
    have hNow := hFew _ List.prefix_rfl
    have hLength := congrArg List.length hConserves
    simp only [SensorHistory.AtMostUndelivered, SensorHistory.attributed, SensorHistory.delivered,
      List.flatMap_append, List.flatMap_singleton, List.length_append] at hNow hLength hConserves ⊢
    have hPasses := serveSensors_passes hSound hServe (by omega)
    exact ⟨hPasses.sound, balance_concat hConserves hPasses.conserves⟩

/-- Deliveries are handed over in the order of the attributions, each of them once, and the
courier is never found waiting beside a delivery. -/
theorem deliveries_in_order {h : SensorHistory}
    (hRun : (sensorMachine sensorBuf).Run AnyMessage h s)
    (hFew : ∀ h' : SensorHistory, h' <+: h → h'.AtMostUndelivered 63) :
    h.delivered <+: h.attributed ∧ h.attributed = h.delivered ++ s.sensorQueue.contents ∧
      (s.engineerCourierTid ≠ 0 → s.sensorQueue.isEmpty) ∧
      ∀ tid, ∃ s' out, serveSensors s tid .requestSensor = .ok (s', out) := by
  obtain ⟨hSound, hConserves⟩ := sensor_run_sound hRun hFew
  refine ⟨⟨_, hConserves.symm⟩, hConserves, fun hWaits => ?_, hSound.requested⟩
  rw [RingBuffer.isEmpty, decide_eq_true_iff, ← hSound.wellFormed.contents_eq_nil_iff]
  exact hSound.waits hWaits

/-- Engineer 10 claims sensor 0 and engineer 11 claims sensor 8. The first hit finds the courier
waiting, the second one has to wait for the courier. -/
theorem deliveries_in_order_two : ∃ (h : SensorHistory) (s : SensorServer),
    h.delivered = [⟨10, sensorTrigger, 0, 5⟩, ⟨11, sensorTrigger, 8, 6⟩] ∧
      h.delivered <+: h.attributed ∧ s.engineerCourierTid = 30 ∧
      (s.engineerCourierTid ≠ 0 → s.sensorQueue.isEmpty) := by
  have hStart := @Machine.Run.start _ _ _ (sensorMachine fun _ => ⟨0, 0, 0, 0⟩) AnyMessage
  have hFirst := hStart.next (i := (20, .initialClaim 0 10)) (o := ([], _)) trivial ⟨rfl, rfl⟩
  have hBoth := hFirst.next (i := (22, .initialClaim 8 11)) (o := ([], _)) trivial ⟨rfl, rfl⟩
  have hAsked := hBoth.next (i := (30, .requestSensor)) (o := ([], _)) trivial ⟨rfl, rfl⟩
  have hDirect := hAsked.next (i := (21, .newSensor 0x80 0 5)) (o := (_, _)) trivial ⟨rfl, rfl⟩
  have hQueued := hDirect.next (i := (21, .newSensor 0x80 1 6)) (o := (_, _)) trivial ⟨rfl, rfl⟩
  have hServed := hQueued.next (i := (30, .requestSensor)) (o := ([], _)) trivial ⟨rfl, rfl⟩
  have hRun := hServed.next (i := (30, .requestSensor)) (o := ([], _)) trivial ⟨rfl, rfl⟩
  obtain ⟨hPrefix, -, hWaits, -⟩ := deliveries_in_order hRun (by
    rintro h' ⟨rest, hSplit⟩
    have hLength := congrArg (fun h : SensorHistory => h.attributed.length) hSplit
    simp only [SensorHistory.attributed, List.flatMap_append, List.length_append] at hLength
    exact Nat.le_add_left_of_le ((Nat.le_add_right _ _).trans (hLength.le.trans (by decide))))
  exact ⟨_, _, rfl, hPrefix, rfl, hWaits⟩

end TrainKernel.User
