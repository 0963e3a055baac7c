import TrainKernel.User.SensorAttribution
import TrainKernel.User.SensorEdges

/-!
# The claims that stand

Of the table of the sensor server, a trigger changes only the time of the last hit. Which engineer
has claimed what is changed by the sensor couriers alone.
-/

namespace TrainKernel.User

/-- The claim of an engineer, as his sensor courier has made it. -/
structure StandingClaim where
  courierTid : Int
  engineerTid : Int
  claim : SensorClaim
deriving DecidableEq

def SensorClaim.names (claim : SensorClaim) (sensorIndex : Int) : Bool :=
  claim.primary = sensorIndex || claim.secondary = sensorIndex

def Attribution.standing (attr : Attribution) : StandingClaim :=
  ⟨attr.courierTid, attr.engineerTid, attr.primary, attr.secondary⟩

def standings (attrs : List Attribution) : List StandingClaim := attrs.map Attribution.standing

/-- Some engineer has claimed the sensor. -/
def isClaimed (table : List StandingClaim) (sensorIndex : Int) : Bool :=
  table.any fun standing => standing.claim.names sensorIndex

variable {attrs attrs' : List Attribution} {attr : Attribution} {sensorIndex : Int}
variable {data : BitVec 8} {seq time : Nat} {is : List Nat} {courierTid engineerTid : Nat}
variable {index : Int} {claim : SensorClaim}

theorem names_standing : attr.standing.claim.names sensorIndex =
    (hasPrimary sensorIndex attr || hasSecondary sensorIndex attr) := rfl

theorem isClaimed_standings : isClaimed (standings attrs) sensorIndex ↔
    ¬Unclaimed attrs sensorIndex := by
  rw [isClaimed, standings, List.any_map, List.any_eq_true, Unclaimed]
  push Not
  refine exists_congr fun attr => and_congr_right fun _ => ?_
  rw [Function.comp_apply, names_standing, Bool.or_eq_true, or_iff_not_imp_left]

theorem standings_hit (attrs : List Attribution) (i timestamp : Nat) :
    standings (attrs.modify i (·.hit timestamp)) = standings attrs := by
  refine List.ext_getElem? fun j => ?_
  rw [standings, standings, List.getElem?_map, List.getElem?_modify, List.getElem?_map]
  cases attrs[j]? with
  | none => rfl
  | some attr =>
    change some (if i = j then attr.hit timestamp else attr).standing = some attr.standing
    split_ifs <;> rfl

/-- What a trigger comes to by the table alone. -/
structure Attributes (attrs : List Attribution) (sensors : List Int) (time : Nat)
    (attrs' : List Attribution) (deliveries : List SensorDelivery) : Prop where
  stands : standings attrs' = standings attrs
  sensors : deliveries.map SensorDelivery.nodeIndex = sensors.filter (isClaimed (standings attrs))
  mine : ∀ delivery ∈ deliveries, delivery.type = sensorTrigger ∧ delivery.timestamp = time ∧
    ∃ standing ∈ standings attrs, standing.engineerTid = delivery.tid ∧
      standing.claim.names delivery.nodeIndex

theorem attributeTrigger_attributes (attrs : List Attribution) (sensorIndex : Int) (time : Nat) :
    Attributes attrs [sensorIndex] time (attributeTrigger attrs sensorIndex time).1
      (attributeTrigger attrs sensorIndex time).2 := by
  rw [attributeTrigger, attrIndex_eq]
  rcases List.eq_nil_or_concat' (considered attrs sensorIndex) with hNil | ⟨_, _, hSome⟩
  · have hNone : ¬isClaimed (standings attrs) sensorIndex := by
      rw [isClaimed_standings, not_not]
      exact considered_eq_nil_iff.mp hNil
    rw [hNil]
    refine ⟨rfl, ?_, List.forall_mem_nil _⟩
    rw [List.filter_singleton, eq_false_of_ne_true hNone]
    rfl
  · have hne : considered attrs sensorIndex ≠ [] := by simp [hSome]
    obtain ⟨⟨attr, i⟩, hMem, hScan⟩ := scan_mem hne
    have hClaimed : isClaimed (standings attrs) sensorIndex :=
      isClaimed_standings.mpr fun hNone => hne (considered_eq_nil_iff.mpr hNone)
    obtain ⟨hAttr, hNames⟩ : attrs[i]? = some attr ∧ attr.standing.claim.names sensorIndex := by
      rw [names_standing, Bool.or_eq_true]
      rw [considered] at hMem
      split_ifs at hMem
      · exact (mem_candidates.mp hMem).imp_right .inr
      · exact (mem_candidates.mp hMem).imp_right .inl
    have hPos : 0 ≤ (i : Int) := Int.natCast_nonneg i
    rw [hScan]
    dsimp only
    rw [if_pos hPos, Int.toNat_natCast]
    refine ⟨standings_hit .., ?_, ?_⟩
    · rw [List.filter_singleton, hClaimed]
      rfl
    · rw [List.forall_mem_singleton]
      refine ⟨rfl, rfl, attr.standing, List.mem_map_of_mem (List.mem_of_getElem? hAttr), ?_, hNames⟩
      simp [hAttr, Attribution.hit, Attribution.standing]

theorem Attributes.append {first later : List Int} {attrs₁ attrs₂ attrs₃ : List Attribution}
    {deliveries deliveries' : List SensorDelivery}
    (h : Attributes attrs₁ first time attrs₂ deliveries)
    (h' : Attributes attrs₂ later time attrs₃ deliveries') :
    Attributes attrs₁ (first ++ later) time attrs₃ (deliveries ++ deliveries') := by
  refine ⟨h'.stands.trans h.stands, ?_, ?_⟩
  · rw [List.map_append, List.filter_append, h.sensors, h'.sensors, h.stands]
  · have hLater := h'.mine
    rw [h.stands] at hLater
    exact List.forall_mem_append.mpr ⟨h.mine, hLater⟩

/-- The claims do not change while a byte is looked at. -/
theorem attributeBits_attributes (attrs : List Attribution) (data : BitVec 8) (seq time : Nat)
    (is : List Nat) : Attributes attrs (sensorsOf data seq is) time
      (attributeBits data seq time is attrs).1 (attributeBits data seq time is attrs).2 := by
  induction is generalizing attrs with
  | nil => exact ⟨rfl, rfl, List.forall_mem_nil _⟩
  | cons i is ih =>
    rw [attributeBits, sensorsOf]
    split_ifs
    · exact (attributeTrigger_attributes attrs (sensorOfBit seq i) time).append (ih _)
    · exact ih attrs

/-- A claim takes the place of the one that the courier has made before. -/
def reclaim (courierTid : Int) (claim : SensorClaim) (table : List StandingClaim) :
    List StandingClaim :=
  table.map fun standing =>
    if standing.courierTid = courierTid then { standing with claim } else standing

theorem initialAttribution_standings
    (h : initialAttribution courierTid index engineerTid attrs = .ok attrs') :
    standings attrs' = standings attrs ++ [⟨courierTid, engineerTid, index, -1⟩] := by
  rw [initialAttribution] at h
  split_ifs at h
  obtain rfl := Except.ok.inj h
  exact List.map_append

theorem initialAttribution_ok (courierTid : Nat) (index : Int) (engineerTid : Nat)
    (h : (standings attrs).length < maxNumEngineer) :
    ∃ attrs', initialAttribution courierTid index engineerTid attrs = .ok attrs' := by
  rw [standings, List.length_map] at h
  exact ⟨_, if_pos h⟩

theorem setAttribution_standings (hNodup : ((standings attrs).map StandingClaim.courierTid).Nodup)
    (h : setAttribution courierTid claim attrs = .ok attrs') :
    standings attrs' = reclaim courierTid claim (standings attrs) := by
  rw [setAttribution, getAttribution] at h
  cases hFind : attrs.findIdx? fun attr => attr.courierTid = (courierTid : Int) with
  | none =>
    rw [hFind] at h
    cases h
  | some i =>
    rw [hFind] at h
    obtain rfl := Except.ok.inj h
    obtain ⟨hLess, hFound, -⟩ := List.findIdx?_eq_some_iff_getElem.mp hFind
    rw [decide_eq_true_iff] at hFound
    refine List.ext_getElem? fun j => ?_
    rw [standings, reclaim, standings, List.map_map, List.getElem?_map, List.getElem?_modify,
      List.getElem?_map]
    cases hAttr : attrs[j]? with
    | none => rfl
    | some attr =>
      rcases eq_or_ne i j with rfl | hOther
      · obtain ⟨_, rfl⟩ := List.getElem?_eq_some_iff.mp hAttr
        simp [Attribution.standing, hFound]
      · have hElse : attr.courierTid ≠ courierTid := by
          intro hSame
          obtain ⟨hj, rfl⟩ := List.getElem?_eq_some_iff.mp hAttr
          have hi : i < ((standings attrs).map StandingClaim.courierTid).length := by
            simpa [standings] using hLess
          have hj : j < ((standings attrs).map StandingClaim.courierTid).length := by
            simpa [standings] using hj
          have hTid : ((standings attrs).map StandingClaim.courierTid)[i] =
              ((standings attrs).map StandingClaim.courierTid)[j] := by
            simpa [standings, Attribution.standing] using hFound.trans hSame.symm
          exact hOther (hNodup.getElem_inj_iff.mp hTid)
        simp [Attribution.standing, hElse, hOther]

theorem setAttribution_ok (claim : SensorClaim)
    (h : ∃ standing ∈ standings attrs, standing.courierTid = courierTid) :
    ∃ attrs', setAttribution courierTid claim attrs = .ok attrs' := by
  obtain ⟨_, hMem, hSame⟩ := h
  obtain ⟨attr, hAttr, rfl⟩ := List.mem_map.mp hMem
  rw [setAttribution, getAttribution]
  cases hFind : attrs.findIdx? fun attr => attr.courierTid = (courierTid : Int) with
  | none =>
    have hNot := List.findIdx?_eq_none_iff.mp hFind attr hAttr
    exact absurd hSame (of_decide_eq_false hNot)
  | some i => exact ⟨_, rfl⟩

end TrainKernel.User
