import TrainKernel.User.SensorNetwork

/-!
# The claims on the way

The sensor couriers keep the table of the server behind their engineers by one claim at most. A
hit is attributed to an engineer who has claimed the sensor, as far as the server has heard.
-/

namespace TrainKernel.User

open Library.Runs

variable {courierTid workerTid : Nat} {sensorBuf : Nat → SensorDelivery} {h : NetworkHistory}
variable {s s' : SensorNetwork} {e : NetworkEvent} {c c' : SensorCourier} {tid : Nat}
variable {o : List SensorDelivery × List SensorOutput} {couriers : List SensorCourier}
variable {table table' : List StandingClaim} {errand : SensorErrand} {claim : SensorClaim}

/-- The entry takes the place of the one that its courier has had before. -/
structure Registers (table : List StandingClaim) (entry : StandingClaim)
    (table' : List StandingClaim) : Prop where
  nodup : (table'.map StandingClaim.courierTid).Nodup
  mem : ∀ other, other ∈ table' ↔
    other = entry ∨ other ∈ table ∧ other.courierTid ≠ entry.courierTid

theorem registers_append {entry : StandingClaim}
    (hNodup : (table.map StandingClaim.courierTid).Nodup)
    (hNew : ∀ other ∈ table, other.courierTid ≠ entry.courierTid) :
    Registers table entry (table ++ [entry]) := by
  constructor
  · rw [List.map_append]
    refine hNodup.append (List.nodup_singleton _) ?_
    rw [List.map_singleton, List.disjoint_singleton, List.mem_map]
    rintro ⟨other, hMem, hSame⟩
    exact hNew other hMem hSame
  · intro other
    rw [List.mem_append, List.mem_singleton, or_comm]
    exact or_congr_right ⟨fun hMem => ⟨hMem, hNew other hMem⟩, And.left⟩

theorem registers_reclaim (entry : StandingClaim)
    (hNodup : (table.map StandingClaim.courierTid).Nodup)
    (hOld : ∃ old ∈ table, old.courierTid = entry.courierTid)
    (hEngineer : ∀ old ∈ table, old.courierTid = entry.courierTid →
      old.engineerTid = entry.engineerTid) :
    Registers table entry (reclaim entry.courierTid entry.claim table) := by
  have hKeeps : (StandingClaim.courierTid ∘ fun standing : StandingClaim =>
      if standing.courierTid = entry.courierTid then { standing with claim := entry.claim }
      else standing) = StandingClaim.courierTid := by
    funext standing
    rw [Function.comp_apply]
    split_ifs <;> rfl
  have hMakes : ∀ old ∈ table, old.courierTid = entry.courierTid →
      { old with claim := entry.claim } = entry := by
    intro old hMem hSame
    have hTid := hEngineer old hMem hSame
    rw [StandingClaim.mk.injEq]
    exact ⟨hSame, hTid, rfl⟩
  constructor
  · rw [reclaim, List.map_map, hKeeps]
    exact hNodup
  · intro other
    rw [reclaim, List.mem_map]
    constructor
    · rintro ⟨old, hMem, rfl⟩
      split_ifs with hSame
      · exact .inl (hMakes old hMem hSame)
      · exact .inr ⟨hMem, hSame⟩
    · rintro (rfl | ⟨hMem, hOther⟩)
      · obtain ⟨old, hMem, hSame⟩ := hOld
        exact ⟨old, hMem, by rw [if_pos hSame, hMakes old hMem hSame]⟩
      · exact ⟨other, hMem, if_neg hOther⟩

theorem tids_redirect (tid : Nat) (errand : SensorErrand) (couriers : List SensorCourier) :
    (redirect tid errand couriers).map SensorCourier.tid = couriers.map SensorCourier.tid := by
  rw [redirect, List.map_map]
  refine List.map_congr_left fun c _ => ?_
  rw [Function.comp_apply]
  split_ifs <;> rfl

theorem exists_redirect {P : Nat → Nat → Prop} (tid : Nat) (errand : SensorErrand) :
    (∃ c ∈ redirect tid errand couriers, P c.tid c.engineerTid) ↔
      ∃ c ∈ couriers, P c.tid c.engineerTid := by
  simp only [redirect, List.mem_map, exists_exists_and_eq_and]
  refine exists_congr fun c => and_congr_right fun _ => ?_
  split_ifs <;> rfl

theorem forall_redirect {P : Nat → Nat → Prop} (tid : Nat) (errand : SensorErrand) :
    (∀ c ∈ redirect tid errand couriers, P c.tid c.engineerTid) ↔
      ∀ c ∈ couriers, P c.tid c.engineerTid := by
  rw [redirect, List.forall_mem_map]
  refine forall₂_congr fun c _ => ?_
  split_ifs <;> rfl

/-- What is known of each courier: the claims that its engineer has made are those that the server
has heard of, and the one that the courier has. -/
structure Recorded (h : NetworkHistory) (couriers : List SensorCourier)
    (table : List StandingClaim) : Prop where
  tids : (couriers.map SensorCourier.tid).Nodup
  courierTids : (table.map StandingClaim.courierTid).Nodup
  entry : ∀ standing ∈ table, ∃ c ∈ couriers, standing.courierTid = c.tid ∧
    standing.engineerTid = c.engineerTid ∧ (h.told c.tid).getLast? = some standing.claim
  known : ∀ c ∈ couriers, h.told c.tid ≠ [] → ∃ standing ∈ table, standing.courierTid = c.tid
  starts : ∀ c ∈ couriers, h.told c.tid = [] ↔ ∃ index, c.errand = .starts index
  handed : ∀ c ∈ couriers, h.handed c.tid = h.told c.tid ++ c.held
  spawned : ∀ tid engineerTid, h.Spawned tid engineerTid ↔
    ∃ c ∈ couriers, c.tid = tid ∧ c.engineerTid = engineerTid
  fresh : ∀ tid, (∀ c ∈ couriers, c.tid ≠ tid) → h.handed tid = [] ∧ h.told tid = []
  engineers : ∀ c ∈ couriers, 0 < c.engineerTid
  room : couriers.length ≤ maxNumEngineer

variable (h e o tid) in
theorem NetworkHistory.handed_concat :
    NetworkHistory.handed tid (h ++ [(e, o)]) = h.handed tid ++ e.handed tid := by
  simp [NetworkHistory.handed]

variable (h e o tid) in
theorem NetworkHistory.told_concat :
    NetworkHistory.told tid (h ++ [(e, o)]) = h.told tid ++ e.told tid := by
  simp [NetworkHistory.told]

theorem NetworkHistory.spawned_concat_of_ne {engineerTid : Nat}
    (hNot : ∀ index, e ≠ .spawn tid engineerTid index) :
    NetworkHistory.Spawned (h ++ [(e, o)]) tid engineerTid ↔ h.Spawned tid engineerTid := by
  simp [NetworkHistory.Spawned, or_and_right, exists_or, hNot]

namespace Recorded

theorem eq_of_tid (hRecorded : Recorded h couriers table) (hc : c ∈ couriers) (hc' : c' ∈ couriers)
    (hTid : c.tid = c'.tid) : c = c' :=
  List.inj_on_of_nodup_map hRecorded.tids hc hc' hTid

/-- The server's answers have no part in it. -/
theorem unchanged (hRecorded : Recorded h couriers table) (hHanded : ∀ tid, e.handed tid = [])
    (hTold : ∀ tid, e.told tid = []) (hNot : ∀ tid engineerTid index,
      e ≠ .spawn tid engineerTid index) : Recorded (h ++ [(e, o)]) couriers table := by
  have hHanded' (tid : Nat) : NetworkHistory.handed tid (h ++ [(e, o)]) = h.handed tid := by
    rw [NetworkHistory.handed_concat, hHanded, List.append_nil]
  have hTold' (tid : Nat) : NetworkHistory.told tid (h ++ [(e, o)]) = h.told tid := by
    rw [NetworkHistory.told_concat, hTold, List.append_nil]
  exact
    { tids := hRecorded.tids
      courierTids := hRecorded.courierTids
      entry := by simpa only [hTold'] using hRecorded.entry
      known := by simpa only [hTold'] using hRecorded.known
      starts := by simpa only [hTold'] using hRecorded.starts
      handed := by simpa only [hTold', hHanded'] using hRecorded.handed
      spawned := fun tid engineerTid =>
        (NetworkHistory.spawned_concat_of_ne (hNot tid engineerTid)).trans
          (hRecorded.spawned tid engineerTid)
      fresh := by simpa only [hTold', hHanded'] using hRecorded.fresh
      engineers := hRecorded.engineers
      room := hRecorded.room }

theorem spawned_redirect (hRecorded : Recorded h couriers table) (tid : Nat) (errand : SensorErrand)
    (hNot : ∀ tid engineerTid index, e ≠ .spawn tid engineerTid index) (tid' engineerTid : Nat) :
    NetworkHistory.Spawned (h ++ [(e, o)]) tid' engineerTid ↔
      ∃ c ∈ redirect tid errand couriers, c.tid = tid' ∧ c.engineerTid = engineerTid := by
  rw [exists_redirect (P := fun tid engineerTid' => tid = tid' ∧ engineerTid' = engineerTid),
    ← hRecorded.spawned]
  exact NetworkHistory.spawned_concat_of_ne (hNot tid' engineerTid)

theorem begun (hRecorded : Recorded h couriers table) (hc : c ∈ couriers)
    (hNot : ∀ index, c.errand ≠ .starts index) : h.told c.tid ≠ [] := by
  intro hNone
  obtain ⟨index, hErrand⟩ := (hRecorded.starts c hc).mp hNone
  exact hNot index hErrand

/-- What holds of the courier that is redirected and of all the others. -/
theorem redirected (hRecorded : Recorded h couriers table) (hc : c ∈ couriers)
    {P : SensorCourier → Prop} (hThis : P { c with errand })
    (hOthers : ∀ c' ∈ couriers, c'.tid ≠ c.tid → P c') :
    ∀ c' ∈ redirect c.tid errand couriers, P c' := by
  rw [redirect, List.forall_mem_map]
  intro c' hc'
  split_ifs with hTid
  · obtain rfl := hRecorded.eq_of_tid hc' hc hTid
    exact hThis
  · exact hOthers c' hc' hTid

theorem spawn (hRecorded : Recorded h couriers table) {engineerTid : Nat} {index : Int}
    (hRoom : couriers.length < maxNumEngineer) (hEngineer : 0 < engineerTid)
    (hNew : ∀ c ∈ couriers, c.tid ≠ tid) :
    Recorded (h ++ [(.spawn tid engineerTid index, o)])
      (couriers ++ [⟨tid, engineerTid, .starts index⟩]) table := by
  obtain ⟨hNone, hUntold⟩ := hRecorded.fresh tid hNew
  have hTold (tid' : Nat) : NetworkHistory.told tid'
      (h ++ [(NetworkEvent.spawn tid engineerTid index, o)]) = h.told tid' := by
    rw [NetworkHistory.told_concat]
    exact List.append_nil _
  have hHanded {tid' : Nat} (hOther : tid' ≠ tid) : NetworkHistory.handed tid'
      (h ++ [(NetworkEvent.spawn tid engineerTid index, o)]) = h.handed tid' := by
    rw [NetworkHistory.handed_concat, NetworkEvent.handed, if_neg hOther.symm, List.append_nil]
  refine
    { tids := ?_
      courierTids := hRecorded.courierTids
      entry := ?_
      known := ?_
      starts := ?_
      handed := ?_
      spawned := ?_
      fresh := ?_
      engineers := ?_
      room := ?_ }
  · rw [List.map_append]
    refine hRecorded.tids.append (List.nodup_singleton _) ?_
    rw [List.map_singleton, List.disjoint_singleton, List.mem_map]
    rintro ⟨c, hc, hSame⟩
    exact hNew c hc hSame
  · intro standing hMem
    obtain ⟨c, hc, hEntry⟩ := hRecorded.entry standing hMem
    simp only [hTold]
    exact ⟨c, List.mem_append_left _ hc, hEntry⟩
  · simp only [hTold]
    refine List.forall_mem_append.mpr ⟨hRecorded.known, List.forall_mem_singleton.mpr ?_⟩
    exact fun hSome => absurd hUntold hSome
  · simp only [hTold]
    refine List.forall_mem_append.mpr ⟨hRecorded.starts, List.forall_mem_singleton.mpr ?_⟩
    exact ⟨fun _ => ⟨index, rfl⟩, fun _ => hUntold⟩
  · simp only [hTold]
    refine List.forall_mem_append.mpr ⟨fun c hc => ?_, List.forall_mem_singleton.mpr ?_⟩
    · rw [hHanded (hNew c hc)]
      exact hRecorded.handed c hc
    · rw [NetworkHistory.handed_concat, hNone, hUntold, NetworkEvent.handed, if_pos rfl]
      rfl
  · intro tid' engineerTid'
    have hBefore := hRecorded.spawned tid' engineerTid'
    simp only [List.mem_append, List.mem_singleton, or_and_right, exists_or, exists_eq_left,
      ← hBefore, NetworkHistory.Spawned, NetworkEvent.spawn.injEq, exists_and_left,
      exists_eq', and_true]
  · intro tid' hUnknown
    obtain ⟨hOthers, hOther⟩ := List.forall_mem_append.mp hUnknown
    have hOther : tid ≠ tid' := hOther _ (List.mem_singleton_self _)
    rw [hTold, hHanded hOther.symm]
    exact hRecorded.fresh tid' hOthers
  · exact List.forall_mem_append.mpr
      ⟨hRecorded.engineers, List.forall_mem_singleton.mpr hEngineer⟩
  · rw [List.length_append]
    exact hRoom

theorem hand (hRecorded : Recorded h couriers table) (hc : c ∈ couriers)
    (hAsks : c.errand = .asks) : Recorded (h ++ [(.hand c.tid claim, o)])
      (redirect c.tid (.claims claim) couriers) table := by
  have hTold (tid : Nat) : NetworkHistory.told tid
      (h ++ [(NetworkEvent.hand c.tid claim, o)]) = h.told tid := by
    rw [NetworkHistory.told_concat]
    exact List.append_nil _
  have hHanded {tid : Nat} (hOther : tid ≠ c.tid) : NetworkHistory.handed tid
      (h ++ [(NetworkEvent.hand c.tid claim, o)]) = h.handed tid := by
    rw [NetworkHistory.handed_concat, NetworkEvent.handed, if_neg hOther.symm, List.append_nil]
  have hBegun := hRecorded.begun hc (by simp [hAsks])
  refine
    { tids := ?_
      courierTids := hRecorded.courierTids
      entry := ?_
      known := ?_
      starts := ?_
      handed := ?_
      spawned := ?_
      fresh := ?_
      engineers :=
        (forall_redirect (P := fun _ engineerTid => 0 < engineerTid) _ _).mpr hRecorded.engineers
      room := (List.length_map _).trans_le hRecorded.room }
  · rw [tids_redirect]
    exact hRecorded.tids
  · simp only [hTold]
    intro standing hMem
    exact (exists_redirect (P := fun tid engineerTid => standing.courierTid = tid ∧
      standing.engineerTid = engineerTid ∧ (h.told tid).getLast? = some standing.claim) _ _).mpr
        (hRecorded.entry standing hMem)
  · simp only [hTold]
    exact (forall_redirect (P := fun tid _ => h.told tid ≠ [] →
      ∃ standing ∈ table, standing.courierTid = tid) _ _).mpr hRecorded.known
  · simp only [hTold]
    refine hRecorded.redirected hc ⟨fun hNone => absurd hNone hBegun, ?_⟩ fun c' hc' _ =>
      hRecorded.starts c' hc'
    rintro ⟨_, ⟨⟩⟩
  · simp only [hTold]
    refine hRecorded.redirected hc ?_ fun c' hc' hOther => ?_
    · rw [NetworkHistory.handed_concat, hRecorded.handed c hc, NetworkEvent.handed, if_pos rfl]
      simp [SensorCourier.held, SensorCourier.request, hAsks, SensorRequest.claims]
    · rw [hHanded hOther]
      exact hRecorded.handed c' hc'
  · exact hRecorded.spawned_redirect _ _ fun tid engineerTid index => by simp
  · intro tid hUnknown
    have hUnknown := (forall_redirect (P := fun tid' _ => tid' ≠ tid) _ _).mp hUnknown
    rw [hTold, hHanded (hUnknown c hc).symm]
    exact hRecorded.fresh tid hUnknown

theorem tell (hRecorded : Recorded h couriers table) (hc : c ∈ couriers) {req : SensorRequest}
    (hRequest : c.request = some req) (hClaims : req.claims = [claim])
    (hTable : Registers table ⟨c.tid, c.engineerTid, claim⟩ table') :
    Recorded (h ++ [(.claim c.tid req, o)]) (redirect c.tid .asks couriers) table' := by
  have hHanded (tid : Nat) : NetworkHistory.handed tid
      (h ++ [(NetworkEvent.claim c.tid req, o)]) = h.handed tid := by
    rw [NetworkHistory.handed_concat]
    exact List.append_nil _
  have hThis : NetworkHistory.told c.tid (h ++ [(NetworkEvent.claim c.tid req, o)]) =
      h.told c.tid ++ [claim] := by
    rw [NetworkHistory.told_concat, NetworkEvent.told, if_pos rfl, hClaims]
  have hOthers {tid : Nat} (hOther : tid ≠ c.tid) : NetworkHistory.told tid
      (h ++ [(NetworkEvent.claim c.tid req, o)]) = h.told tid := by
    rw [NetworkHistory.told_concat, NetworkEvent.told, if_neg hOther.symm, List.append_nil]
  refine
    { tids := ?_
      courierTids := hTable.nodup
      entry := ?_
      known := ?_
      starts := ?_
      handed := ?_
      spawned := ?_
      fresh := ?_
      engineers :=
        (forall_redirect (P := fun _ engineerTid => 0 < engineerTid) _ _).mpr hRecorded.engineers
      room := (List.length_map _).trans_le hRecorded.room }
  · rw [tids_redirect]
    exact hRecorded.tids
  · intro standing hMem
    refine (exists_redirect (P := fun tid engineerTid => standing.courierTid = tid ∧
      standing.engineerTid = engineerTid ∧ (NetworkHistory.told tid
        (h ++ [(NetworkEvent.claim c.tid req, o)])).getLast? = some standing.claim) _ _).mpr ?_
    rcases (hTable.mem standing).mp hMem with rfl | ⟨hOld, hOther⟩
    · exact ⟨c, hc, rfl, rfl, by rw [hThis, List.getLast?_concat]⟩
    · obtain ⟨c', hc', hTid, hEngineer, hLast⟩ := hRecorded.entry standing hOld
      have hNot : c'.tid ≠ c.tid := fun hSame => hOther (hTid.trans (congrArg _ hSame))
      exact ⟨c', hc', hTid, hEngineer, by rw [hOthers hNot, hLast]⟩
  · refine hRecorded.redirected hc (fun _ => ⟨_, (hTable.mem _).mpr (.inl rfl), rfl⟩) ?_
    intro c' hc' hOther hSome
    rw [hOthers hOther] at hSome
    obtain ⟨standing, hMem, hTid⟩ := hRecorded.known c' hc' hSome
    refine ⟨standing, (hTable.mem _).mpr (.inr ⟨hMem, fun hSame => hOther ?_⟩), hTid⟩
    exact Int.natCast_inj.mp (hTid.symm.trans hSame)
  · refine hRecorded.redirected hc ?_ fun c' hc' hOther => ?_
    · rw [hThis]
      simp
    · rw [hOthers hOther]
      exact hRecorded.starts c' hc'
  · refine hRecorded.redirected hc ?_ fun c' hc' hOther => ?_
    -- the claim has come from the courier to the server
    · have hHeld : c.held = [claim] := by
        rw [SensorCourier.held, hRequest, Option.toList_some, List.flatMap_singleton, hClaims]
      rw [hHanded, hThis, hRecorded.handed c hc, hHeld]
      exact (List.append_nil _).symm
    · rw [hHanded, hOthers hOther]
      exact hRecorded.handed c' hc'
  · exact hRecorded.spawned_redirect _ _ fun tid engineerTid index => by simp
  · intro tid hUnknown
    have hUnknown := (forall_redirect (P := fun tid' _ => tid' ≠ tid) _ _).mp hUnknown
    rw [hHanded, hOthers (hUnknown c hc).symm]
    exact hRecorded.fresh tid hUnknown

/-- A courier of which the server has not heard has no entry. -/
theorem not_registered (hRecorded : Recorded h couriers table) (hUntold : h.told tid = []) :
    ∀ other ∈ table, other.courierTid ≠ tid := by
  intro other hMem hSame
  obtain ⟨c, -, hTid, -, hLast⟩ := hRecorded.entry other hMem
  have hEq : c.tid = tid := Int.natCast_inj.mp (hTid.symm.trans hSame)
  rw [hEq, hUntold] at hLast
  cases hLast

theorem engineer_of_courier (hRecorded : Recorded h couriers table) (hc : c ∈ couriers) :
    ∀ other ∈ table, other.courierTid = c.tid → other.engineerTid = c.engineerTid := by
  intro other hMem hSame
  obtain ⟨c', hc', hTid, hEngineer, -⟩ := hRecorded.entry other hMem
  obtain rfl := hRecorded.eq_of_tid hc hc' (Int.natCast_inj.mp (hSame.symm.trans hTid))
  exact hEngineer

/-- The parser has seen to it that there is room. -/
theorem length_lt (hRecorded : Recorded h couriers table) (hc : c ∈ couriers)
    (hUntold : h.told c.tid = []) : table.length < maxNumEngineer := by
  have hNodup : ((c.tid : Int) :: table.map StandingClaim.courierTid).Nodup := by
    refine List.nodup_cons.mpr ⟨?_, hRecorded.courierTids⟩
    rw [List.mem_map]
    rintro ⟨other, hMem, hSame⟩
    exact hRecorded.not_registered hUntold other hMem hSame
  have hSubset : ((c.tid : Int) :: table.map StandingClaim.courierTid) ⊆
      couriers.map fun c => (c.tid : Int) := by
    refine List.cons_subset.mpr ⟨List.mem_map_of_mem hc, ?_⟩
    intro tid hMem
    obtain ⟨other, hOther, rfl⟩ := List.mem_map.mp hMem
    obtain ⟨c', hc', hTid, -⟩ := hRecorded.entry other hOther
    exact List.mem_map.mpr ⟨c', hc', hTid.symm⟩
  have hLength := (hNodup.subperm hSubset).length_le
  rw [List.length_cons, List.length_map, List.length_map] at hLength
  exact hLength.trans hRecorded.room

end Recorded

/-! ## The network -/

theorem newSensorLoop_attrs (server : SensorServer) (data : BitVec 8) (seq time : Nat)
    (is : List Nat) : (newSensorLoop data seq time is server).1.attrs =
      (attributeBits data seq time is server.attrs).1 := by
  induction is generalizing server with
  | nil => rfl
  | cons i is ih =>
    rw [newSensorLoop_cons, attributeBits]
    split_ifs
    · exact (ih _).trans (by rw [triggerSensor_attrs])
    · exact ih server

theorem Recorded.step (hRecorded : Recorded h s.sensorCouriers (standings s.server.attrs))
    (hAllowed : OnNetwork h s e) (hStep : SensorNetwork.Step courierTid workerTid s e s' o) :
    Recorded (h ++ [(e, o)]) s'.sensorCouriers (standings s'.server.attrs) := by
  cases hStep with
  | spawn =>
    obtain ⟨hRoom, hEngineer, -, hNew⟩ := hAllowed
    exact hRecorded.spawn hRoom hEngineer hNew
  | hand hMem hAsks => exact hRecorded.hand hMem hAsks
  | @claim c req server out hMem hRequest hServe =>
    obtain ⟨attrs, rfl, rfl, hMade⟩ := serve_request hRequest hServe
    rcases hMade with ⟨index, hErrand, hAttrs⟩ | ⟨claim, hErrand, hAttrs⟩
    · have hUntold := (hRecorded.starts c hMem).mpr ⟨index, hErrand⟩
      have hReq : req.claims = [⟨index, -1⟩] := by
        rw [SensorCourier.request, hErrand] at hRequest
        obtain rfl := Option.some.inj hRequest
        rfl
      refine hRecorded.tell hMem hRequest hReq ?_
      rw [initialAttribution_standings hAttrs]
      exact registers_append hRecorded.courierTids (hRecorded.not_registered hUntold)
    · have hTold := hRecorded.begun hMem (by simp [hErrand])
      have hReq : req.claims = [claim] := by
        rw [SensorCourier.request, hErrand] at hRequest
        obtain rfl := Option.some.inj hRequest
        rfl
      refine hRecorded.tell hMem hRequest hReq ?_
      rw [setAttribution_standings hRecorded.courierTids hAttrs]
      exact registers_reclaim ⟨c.tid, c.engineerTid, claim⟩ hRecorded.courierTids
        (hRecorded.known c hMem hTold) (hRecorded.engineer_of_courier hMem)
  | @report data seq time server out hServe =>
    have hEq : serveSensors s.server workerTid (.newSensor data seq time) =
        .ok ((newSensorLoop data seq time (List.range 8) s.server).1,
          (newSensorLoop data seq time (List.range 8) s.server).2 ++ [.reply workerTid]) := rfl
    obtain ⟨rfl, -⟩ := Prod.mk.inj (Except.ok.inj (hEq.symm.trans hServe))
    rw [newSensorLoop_attrs, (attributeBits_attributes ..).stands]
    exact hRecorded.unchanged (fun _ => rfl) (fun _ => rfl) fun _ _ _ => by simp
  | @ask server out hAsks hServe =>
    have hSame : server.attrs = s.server.attrs := by
      rcases serve_ask hServe with ⟨rfl, -⟩ | ⟨_, -, hSame, -⟩
      · rfl
      · exact hSame
    rw [hSame]
    exact hRecorded.unchanged (fun _ => rfl) (fun _ => rfl) fun _ _ _ => by simp
  | bring hBrings => exact hRecorded.unchanged (fun _ => rfl) (fun _ => rfl) fun _ _ _ => by simp

theorem network_recorded
    (hRun : (sensorNetwork courierTid workerTid sensorBuf).Run OnNetwork h s) :
    Recorded h s.sensorCouriers (standings s.server.attrs) := by
  refine hRun.invariant (fun h s => Recorded h s.sensorCouriers (standings s.server.attrs)) ?_ ?_
  · exact
      { tids := List.nodup_nil
        courierTids := List.nodup_nil
        entry := List.forall_mem_nil _
        known := List.forall_mem_nil _
        starts := List.forall_mem_nil _
        handed := List.forall_mem_nil _
        spawned := fun tid engineerTid => by simp [NetworkHistory.Spawned, sensorNetwork]
        fresh := fun _ _ => ⟨rfl, rfl⟩
        engineers := List.forall_mem_nil _
        room := Nat.zero_le _ }
  · intro h s e s' o hRecorded hAllowed hStep
    exact hRecorded.step hAllowed hStep

/-- The hits that are attributed are those that are claimed, in their order, and each goes to an
engineer who has claimed it. -/
structure RightlyDelivered (h : NetworkHistory) (sensors : List Int) (time : Nat)
    (deliveries : List SensorDelivery) : Prop where
  inOrder : (deliveries.map SensorDelivery.nodeIndex).Sublist sensors
  complete : ∀ sensorIndex ∈ sensors, sensorIndex ∈ deliveries.map SensorDelivery.nodeIndex ↔
    ∃ engineerTid, h.Claims engineerTid sensorIndex
  mine : ∀ delivery ∈ deliveries, delivery.type = sensorTrigger ∧ delivery.timestamp = time ∧
    ∃ engineerTid : Nat, delivery.tid = engineerTid ∧ 0 < engineerTid ∧
      h.Claims engineerTid delivery.nodeIndex

/-- The task that sends the message has it to send. -/
def SensorNetwork.Ready (s : SensorNetwork) : NetworkEvent → Prop
  | .spawn _ _ _ => True
  | .hand tid _ => ∃ c ∈ s.sensorCouriers, c.tid = tid ∧ c.errand = .asks
  | .claim tid req => ∃ c ∈ s.sensorCouriers, c.tid = tid ∧ c.request = some req
  | .report _ _ _ => True
  | .ask => s.courier = .asks
  | .bring delivery => s.courier = .brings delivery

variable {data : BitVec 8} {seq time : Nat} {deliveries : List SensorDelivery}
variable {out : List SensorOutput} {sensorIndex : Int}

namespace Recorded

theorem claims_of_mem (hRecorded : Recorded h couriers table) {standing : StandingClaim}
    (hMem : standing ∈ table) (hNames : standing.claim.names sensorIndex) :
    ∃ engineerTid : Nat, standing.engineerTid = engineerTid ∧ 0 < engineerTid ∧
      h.Claims engineerTid sensorIndex := by
  obtain ⟨c, hc, -, hEngineer, hLast⟩ := hRecorded.entry standing hMem
  refine ⟨c.engineerTid, hEngineer, hRecorded.engineers c hc, c.tid, standing.claim, ?_, hLast,
    hNames⟩
  exact (hRecorded.spawned _ _).mpr ⟨c, hc, rfl, rfl⟩

theorem isClaimed_iff (hRecorded : Recorded h couriers table) :
    isClaimed table sensorIndex ↔ ∃ engineerTid, h.Claims engineerTid sensorIndex := by
  rw [isClaimed, List.any_eq_true]
  constructor
  · rintro ⟨standing, hMem, hNames⟩
    obtain ⟨engineerTid, -, -, hClaims⟩ := hRecorded.claims_of_mem hMem hNames
    exact ⟨engineerTid, hClaims⟩
  · rintro ⟨_, tid, claim, hSpawned, hLast, hNames⟩
    obtain ⟨c, hc, rfl, -⟩ := (hRecorded.spawned _ _).mp hSpawned
    have hTold : h.told c.tid ≠ [] := by
      rintro hNone
      rw [hNone] at hLast
      cases hLast
    obtain ⟨standing, hMem, hTid⟩ := hRecorded.known c hc hTold
    obtain ⟨c', hc', hTid', -, hLast'⟩ := hRecorded.entry standing hMem
    obtain rfl := hRecorded.eq_of_tid hc hc' (Int.natCast_inj.mp (hTid.symm.trans hTid'))
    refine ⟨standing, hMem, ?_⟩
    rw [← Option.some.inj (hLast.symm.trans hLast')]
    exact hNames

end Recorded

theorem report_rightlyDelivered
    (hRecorded : Recorded h s.sensorCouriers (standings s.server.attrs))
    (hStep : SensorNetwork.Step courierTid workerTid s (.report data seq time) s'
      (deliveries, out)) :
    RightlyDelivered h (sensorsOf data seq (List.range 8)) time deliveries := by
  cases hStep with
  | report hServe =>
    have hAttributes := attributeBits_attributes s.server.attrs data seq time (List.range 8)
    have hSensors := hAttributes.sensors
    refine ⟨?_, ?_, ?_⟩
    · exact hSensors.symm ▸ List.filter_sublist
    · intro sensorIndex hMem
      rw [← hRecorded.isClaimed_iff]
      exact hSensors.symm ▸ List.mem_filter.trans (and_iff_right hMem)
    · intro delivery hMem
      obtain ⟨hType, hTime, standing, hStands, hEngineer, hNames⟩ := hAttributes.mine delivery hMem
      obtain ⟨engineerTid, hTid, hPos, hClaims⟩ := hRecorded.claims_of_mem hStands hNames
      exact ⟨hType, hTime, engineerTid, hEngineer.symm.trans hTid, hPos, hClaims⟩

/-- None of the assertions fails. -/
theorem SensorNetwork.Ready.steps (hReady : s.Ready e) (hAllowed : OnNetwork h s e)
    (hRecorded : Recorded h s.sensorCouriers (standings s.server.attrs))
    (hSound : s.server.Sound) : ∃ s' o, Step courierTid workerTid s e s' o := by
  cases e with
  | spawn tid engineerTid index =>
    obtain ⟨-, -, hIndex, -⟩ := hAllowed
    exact ⟨_, _, .spawn hIndex⟩
  | hand tid claim =>
    obtain ⟨c, hMem, rfl, hAsks⟩ := hReady
    exact ⟨_, _, .hand hMem hAsks⟩
  | claim tid req =>
    obtain ⟨c, hMem, rfl, hRequest⟩ := hReady
    have hServes : ∃ r, serveSensors s.server c.tid req = .ok r := by
      rw [SensorCourier.request] at hRequest
      cases hErrand : c.errand with
      | starts index =>
        rw [hErrand] at hRequest
        obtain rfl := Option.some.inj hRequest
        have hUntold := (hRecorded.starts c hMem).mpr ⟨index, hErrand⟩
        obtain ⟨attrs, hAttrs⟩ := initialAttribution_ok c.tid index c.engineerTid
          (hRecorded.length_lt hMem hUntold)
        exact ⟨_, by rw [serveSensors, hAttrs]; rfl⟩
      | claims claim =>
        rw [hErrand] at hRequest
        obtain rfl := Option.some.inj hRequest
        have hTold := hRecorded.begun hMem (by simp [hErrand])
        obtain ⟨attrs, hAttrs⟩ := setAttribution_ok claim (hRecorded.known c hMem hTold)
        exact ⟨_, by rw [serveSensors, hAttrs]; rfl⟩
      | asks =>
        rw [hErrand] at hRequest
        cases hRequest
    obtain ⟨_, hServe⟩ := hServes
    exact ⟨_, _, .claim hMem hRequest hServe⟩
  | report data seq time => exact ⟨_, _, .report rfl⟩
  | ask =>
    obtain ⟨server, out, hServe⟩ := hSound.requested courierTid
    exact ⟨_, _, .ask hReady hServe⟩
  | bring delivery => exact ⟨_, _, .bring hReady⟩

theorem network_rightlyDelivered
    (hRun : (sensorNetwork courierTid workerTid sensorBuf).Run OnNetwork h s)
    {before : NetworkHistory}
    (hBefore : before ++ [(.report data seq time, deliveries, out)] <+: h) :
    RightlyDelivered before (sensorsOf data seq (List.range 8)) time deliveries := by
  obtain ⟨s₁, s₂, hRun₁, -, hStep⟩ := hRun.split hBefore
  exact report_rightlyDelivered (network_recorded hRun₁) hStep

/-- What `engineerCourier` asserts of a delivery. -/
theorem attributed_forEngineer
    (hRun : (sensorNetwork courierTid workerTid sensorBuf).Run OnNetwork h s) :
    ∀ delivery ∈ h.attributed, delivery.type = sensorTrigger ∧ 0 < delivery.tid := by
  intro delivery hDelivery
  obtain ⟨⟨e, deliveries, out⟩, hRound, hMem⟩ := List.mem_flatMap.mp hDelivery
  obtain ⟨before, after, rfl⟩ := List.append_of_mem hRound
  have hBefore : before ++ [(e, deliveries, out)] <+: before ++ (e, deliveries, out) :: after :=
    ⟨after, by simp⟩
  obtain ⟨s₁, s₂, hRun₁, -, hStep⟩ := hRun.split hBefore
  cases e with
  | report data seq time =>
    obtain ⟨hType, -, engineerTid, hTid, hPos, -⟩ :=
      (report_rightlyDelivered (network_recorded hRun₁) hStep).mine delivery hMem
    exact ⟨hType, hTid ▸ Int.natCast_pos.mpr hPos⟩
  | _ =>
    cases hStep
    cases hMem

/-- A hit is attributed to an engineer who has claimed it whenever there is one, and it is brought
to him once and in its turn. His claims reach the server in the order in which he makes them, and
no assertion of the server or of the couriers fails on the way. -/
theorem hits_reach_engineers (hCourier : courierTid ≠ 0)
    (hRun : (sensorNetwork courierTid workerTid sensorBuf).Run OnNetwork h s)
    (hFew : ∀ h' : NetworkHistory, h' <+: h → h'.AtMostUnderway 63) :
    h.attributed = h.brought ++ s.courier.held ++ s.server.sensorQueue.contents ∧
      (s.courier = .waits → s.server.sensorQueue.contents = []) ∧
      (∀ before data seq time deliveries out,
        before ++ [(.report data seq time, deliveries, out)] <+: h →
          RightlyDelivered before (sensorsOf data seq (List.range 8)) time deliveries) ∧
      (∀ c ∈ s.sensorCouriers, h.handed c.tid = h.told c.tid ++ c.held) ∧
      (∀ delivery ∈ s.courier.held, delivery.type = sensorTrigger ∧ 0 < delivery.tid) ∧
      ∀ e, OnNetwork h s e → s.Ready e →
        ∃ s' o, SensorNetwork.Step courierTid workerTid s e s' o := by
  have hCarries := network_carries hRun hFew
  have hRecorded := network_recorded hRun
  refine ⟨hCarries.attributed, fun hWaits => ?_, ?_, hRecorded.handed, ?_, ?_⟩
  · have hKnown := hCarries.knows.waits hWaits
    exact hCarries.sound.waits (hKnown.trans_ne hCourier)
  · intro before data seq time deliveries out hBefore
    exact network_rightlyDelivered hRun hBefore
  · intro delivery hMem
    refine attributed_forEngineer hRun delivery ?_
    rw [hCarries.attributed]
    exact List.mem_append_left _ (List.mem_append_right _ hMem)
  · intro e hAllowed hReady
    exact hReady.steps hAllowed hRecorded hCarries.sound

/-- The first of two hits finds the courier waiting, and the second one is stored. The engineer's
next claim is on its way all the while. -/
theorem hits_reach_engineers_two : ∃ (h : NetworkHistory) (s : SensorNetwork),
    h.brought = [⟨10, sensorTrigger, 0, 5⟩] ∧ s.courier = .asks ∧
      s.server.sensorQueue.contents = [⟨10, sensorTrigger, 0, 9⟩] ∧
      h.told 20 = [⟨0, -1⟩] ∧ h.handed 20 = [⟨0, -1⟩, ⟨2, 5⟩] ∧
      h.attributed = h.brought ++ s.courier.held ++ s.server.sensorQueue.contents ∧
      ∀ c ∈ s.sensorCouriers, h.handed c.tid = h.told c.tid ++ c.held := by
  have hStart := @Machine.Run.start _ _ _ (sensorNetwork 3 4 fun _ => ⟨0, 0, 0, 0⟩) OnNetwork
  have hIndex : IsSensorIndex 0 := ⟨by decide, by decide⟩
  have hSpawned := hStart.next (i := NetworkEvent.spawn 20 10 0) (o := _)
    ⟨by decide, by decide, hIndex, List.forall_mem_nil _⟩ (.spawn hIndex)
  have hClaimed := hSpawned.next (i := NetworkEvent.claim 20 (.initialClaim 0 10)) (o := _) trivial
    (@SensorNetwork.Step.claim 3 4 _ ⟨20, 10, .starts 0⟩ _ _ _ (.head _) rfl rfl)
  have hHanded := hClaimed.next (i := NetworkEvent.hand 20 ⟨2, 5⟩) (o := _) trivial
    (@SensorNetwork.Step.hand 3 4 _ ⟨20, 10, .asks⟩ _ (.head _) rfl)
  have hAsked := hHanded.next (i := NetworkEvent.ask) (o := _) trivial
    (@SensorNetwork.Step.ask 3 4 _ _ _ rfl rfl)
  have hDirect := hAsked.next (i := NetworkEvent.report 0x80 0 5) (o := _) trivial
    (@SensorNetwork.Step.report 3 4 _ _ _ _ _ _ rfl)
  have hQueued := hDirect.next (i := NetworkEvent.report 0x80 0 9) (o := _) trivial
    (@SensorNetwork.Step.report 3 4 _ _ _ _ _ _ rfl)
  have hRun := hQueued.next (i := NetworkEvent.bring ⟨10, sensorTrigger, 0, 5⟩) (o := _) trivial
    (@SensorNetwork.Step.bring 3 4 _ _ rfl)
  obtain ⟨hAttributed, -, -, hClaims, -⟩ := hits_reach_engineers (by decide) hRun (by
    rintro h' ⟨rest, hSplit⟩
    have hLength := congrArg (fun h : NetworkHistory => h.attributed.length) hSplit
    simp only [NetworkHistory.attributed, List.flatMap_append, List.length_append] at hLength
    exact Nat.le_add_left_of_le ((Nat.le_add_right _ _).trans (hLength.le.trans (by decide))))
  exact ⟨_, _, rfl, rfl, rfl, rfl, rfl, hAttributed, hClaims⟩

end TrainKernel.User
