import Mathlib.Data.List.Basic
import TrainKernel.User.SensorServer

/-!
# The attribution of a trigger

An engineer who has not hit a sensor yet has the time -1, and a minimum of -1 is at the same time
the mark that there is no minimum yet. So the candidate after such an engineer is taken, whatever
its own time is.
-/

namespace TrainKernel.User

/-- Entries of the table, with their indices. -/
abbrev Candidates := List (Attribution × Nat)

def Minimum.offer (min : Minimum) (candidate : Attribution × Nat) : Minimum :=
  if min.time = -1 ∨ candidate.1.prevTime < min.time then ⟨candidate.1.prevTime, candidate.2⟩
  else min

def scan (cs : Candidates) : Minimum := cs.foldl Minimum.offer ⟨-1, -1⟩

variable {cs : Candidates} {c : Attribution × Nat}

theorem scan_concat (cs : Candidates) (c : Attribution × Nat) :
    scan (cs ++ [c]) = (scan cs).offer c :=
  List.foldl_concat ..

theorem scan_mem (hne : cs ≠ []) : ∃ c ∈ cs, scan cs = ⟨c.1.prevTime, c.2⟩ := by
  induction cs using List.reverseRecOn with
  | nil => exact absurd rfl hne
  | append_singleton cs c ih =>
    rw [scan_concat, Minimum.offer]
    split_ifs with hTaken
    · exact ⟨c, by simp, rfl⟩
    · obtain ⟨d, hMem, hScan⟩ := ih fun hNil => hTaken (by rw [hNil]; exact Or.inl rfl)
      exact ⟨d, List.mem_append_left _ hMem, hScan⟩

theorem neg_one_le_scan_time (cs : Candidates) : -1 ≤ (scan cs).time := by
  by_cases hne : cs = []
  · rw [hne]
    exact le_rfl
  · obtain ⟨c, -, hScan⟩ := scan_mem hne
    rw [hScan]
    exact c.1.neg_one_le_prevTime

theorem scan_time_le (hHit : ∀ c ∈ cs, c.1.prevTime ≠ -1) :
    ∀ c ∈ cs, (scan cs).time ≤ c.1.prevTime := by
  induction cs using List.reverseRecOn with
  | nil => simp
  | append_singleton cs c ih =>
    have hInit : ∀ d ∈ cs, d.1.prevTime ≠ -1 := fun d hMem => hHit d (List.mem_append_left _ hMem)
    intro d hMem
    rw [scan_concat, Minimum.offer]
    rcases List.mem_append.mp hMem with hMem | hMem
    · have hLe := ih hInit d hMem
      split_ifs with hTaken
      · cases hTaken with
        | inl hNone =>
          obtain ⟨e, hMem', hScan⟩ := scan_mem (List.ne_nil_of_mem hMem)
          rw [hScan] at hNone
          exact absurd hNone (hInit e hMem')
        | inr hLess => exact hLess.le.trans hLe
      · exact hLe
    · rw [List.mem_singleton] at hMem
      subst hMem
      split_ifs with hTaken
      · exact le_rfl
      · exact not_lt.mp fun hLess => hTaken (Or.inr hLess)

/-- A minimum of -1 does not outlive the next candidate. -/
theorem scan_time_eq_neg_one_iff (hne : cs ≠ []) :
    (scan cs).time = -1 ↔ (cs.getLast hne).1.prevTime = -1 := by
  obtain ⟨init, c, rfl⟩ : ∃ init c, cs = init ++ [c] :=
    ⟨_, _, (List.dropLast_append_getLast hne).symm⟩
  have hTime := neg_one_le_scan_time init
  rw [List.getLast_append_singleton, scan_concat, Minimum.offer]
  split_ifs with hTaken
  · rfl
  · rw [not_or, not_lt] at hTaken
    constructor
    · intro hNone
      exact absurd hNone hTaken.1
    · intro hNever
      omega

/-- Whenever the last candidate has hit a sensor before, so have the others. -/
def NeverHitLast (cs : Candidates) : Prop :=
  ∀ last ∈ cs.getLast?, last.1.prevTime ≠ -1 → ∀ c ∈ cs, c.1.prevTime ≠ -1

theorem scan_minimal_iff (hne : cs ≠ []) :
    (∀ c ∈ cs, (scan cs).time ≤ c.1.prevTime) ↔ NeverHitLast cs := by
  have hScan := neg_one_le_scan_time cs
  have hIff := scan_time_eq_neg_one_iff hne
  rw [NeverHitLast, List.getLast?_eq_some_getLast hne]
  constructor
  · rintro hMinimal last hLast hHit c hMem hNever
    obtain rfl : cs.getLast hne = last := Option.some_inj.mp hLast
    have hLe := hMinimal c hMem
    exact hHit (hIff.mp (by omega))
  · intro hHit
    by_cases hNever : (scan cs).time = -1
    · intro c _
      rw [hNever]
      exact c.1.neg_one_le_prevTime
    · exact scan_time_le (hHit _ rfl fun hLast => hNever (hIff.mpr hLast))

variable {attrs : List Attribution} {attr : Attribution} {sensorIndex : Int} {timestamp : Nat}

def candidates (claimed : Attribution → Bool) (i : Nat) (attrs : List Attribution) : Candidates :=
  (attrs.zipIdx i).filter fun c => claimed c.1

def hasPrimary (sensorIndex : Int) (attr : Attribution) : Bool := attr.primary = sensorIndex

def hasSecondary (sensorIndex : Int) (attr : Attribution) : Bool := attr.secondary = sensorIndex

/-- The loop asks for the secondary claim only where the primary one is for another sensor. -/
theorem attributionLoop_eq (i : Nat) (min : Minima) (hMin : -1 ≤ min.primary.time) :
    attributionLoop sensorIndex i min attrs =
      ⟨(candidates (hasPrimary sensorIndex) i attrs).foldl Minimum.offer min.primary,
        (candidates (fun attr => !hasPrimary sensorIndex attr && hasSecondary sensorIndex attr)
          i attrs).foldl Minimum.offer min.secondary⟩ := by
  induction attrs generalizing i min with
  | nil => rfl
  | cons attr attrs ih =>
    have hTime := attr.neg_one_le_prevTime
    rw [attributionLoop, candidates, candidates, List.zipIdx_cons]
    by_cases hPrimary : attr.primary = sensorIndex
    · have hTaken : (min.primary.time = -1 ∨ attr.prevTime < min.primary.time ∨
          attr.prevTime = -1) ↔ (min.primary.time = -1 ∨ attr.prevTime < min.primary.time) := by
        omega
      have hOffer : (if min.primary.time = -1 ∨ attr.prevTime < min.primary.time ∨
          attr.prevTime = -1 then { min with primary := ⟨attr.prevTime, i⟩ } else min)
          = { min with primary := min.primary.offer (attr, i) } := by
        simp only [hTaken, Minimum.offer]
        split_ifs <;> rfl
      have hNext : -1 ≤ (min.primary.offer (attr, i)).time := by
        rw [Minimum.offer]
        split_ifs
        · exact hTime
        · exact hMin
      rw [if_pos hPrimary, hOffer, ih _ _ hNext]
      simp [hasPrimary, hPrimary, candidates]
    · rw [if_neg hPrimary]
      by_cases hSecondary : attr.secondary = sensorIndex
      · have hOffer : (if min.secondary.time = -1 ∨ attr.prevTime < min.secondary.time
            then { min with secondary := ⟨attr.prevTime, i⟩ } else min)
            = { min with secondary := min.secondary.offer (attr, i) } := by
          simp only [Minimum.offer]
          split_ifs <;> rfl
        rw [if_pos hSecondary, hOffer, ih _ ⟨min.primary, min.secondary.offer (attr, i)⟩ hMin]
        simp [hasPrimary, hasSecondary, hPrimary, hSecondary, candidates]
      · rw [if_neg hSecondary, ih _ _ hMin]
        simp [hasPrimary, hasSecondary, hPrimary, hSecondary, candidates]

/-- The engineers that the choice is between. -/
def considered (attrs : List Attribution) (sensorIndex : Int) : Candidates :=
  if candidates (hasPrimary sensorIndex) 0 attrs = [] then
    candidates (hasSecondary sensorIndex) 0 attrs
  else candidates (hasPrimary sensorIndex) 0 attrs

theorem candidates_eq_nil_iff {claimed : Attribution → Bool} :
    candidates claimed 0 attrs = [] ↔ ∀ attr ∈ attrs, ¬claimed attr := by
  rw [candidates, List.filter_eq_nil_iff]
  constructor
  · intro hNone attr hMem
    obtain ⟨i, hi⟩ := List.mem_iff_getElem?.mp hMem
    exact hNone (attr, i) (List.mk_mem_zipIdx_iff_getElem?.mpr hi)
  · rintro hNone ⟨attr, i⟩ hMem
    exact hNone attr (List.mem_of_getElem? (List.mk_mem_zipIdx_iff_getElem?.mp hMem))

theorem mem_candidates {claimed : Attribution → Bool} {i : Nat} :
    (attr, i) ∈ candidates claimed 0 attrs ↔ attrs[i]? = some attr ∧ claimed attr := by
  rw [candidates, List.mem_filter, List.mk_mem_zipIdx_iff_getElem?]

theorem attrIndex_eq (attrs : List Attribution) (sensorIndex : Int) :
    attrIndex attrs sensorIndex = (scan (considered attrs sensorIndex)).index := by
  rw [attrIndex, attributionLoop_eq 0 _ le_rfl, considered]
  dsimp only
  change (if 0 ≤ (scan _).index then (scan _).index else (scan _).index) = _
  by_cases hNone : candidates (hasPrimary sensorIndex) 0 attrs = []
  · have hOthers : candidates (fun attr => !hasPrimary sensorIndex attr &&
        hasSecondary sensorIndex attr) 0 attrs = candidates (hasSecondary sensorIndex) 0 attrs := by
      rw [candidates, candidates]
      apply List.filter_congr
      rintro ⟨attr, i⟩ hMem
      have hAttr := List.mem_of_getElem? (List.mk_mem_zipIdx_iff_getElem?.mp hMem)
      have hPrimary := candidates_eq_nil_iff.mp hNone attr hAttr
      simp [hPrimary]
    have hNeg : ¬0 ≤ (scan []).index := by decide
    rw [if_pos hNone, hNone, if_neg hNeg, hOthers]
  · obtain ⟨c, -, hScan⟩ := scan_mem hNone
    have hPos : 0 ≤ (scan (candidates (hasPrimary sensorIndex) 0 attrs)).index := by
      rw [hScan]
      exact Int.natCast_nonneg _
    rw [if_neg hNone, if_pos hPos]

structure Earliest (attrs : List Attribution) (claimed : Attribution → Bool) (attr : Attribution) :
    Prop where
  claims : claimed attr
  earliest : ∀ other ∈ attrs, claimed other → attr.prevTime ≤ other.prevTime

/-- Among the primary claims, and among the secondary ones only if there is no primary one. -/
def Deserves (attrs : List Attribution) (sensorIndex : Int) (attr : Attribution) : Prop :=
  Earliest attrs (hasPrimary sensorIndex) attr ∨
    (∀ other ∈ attrs, ¬hasPrimary sensorIndex other) ∧
      Earliest attrs (hasSecondary sensorIndex) attr

def Unclaimed (attrs : List Attribution) (sensorIndex : Int) : Prop :=
  ∀ attr ∈ attrs, ¬hasPrimary sensorIndex attr ∧ ¬hasSecondary sensorIndex attr

def RightlyAttributed (s : SensorServer) (sensorIndex : Int) (timestamp : Nat) : Prop :=
  (∃ i attr, s.attrs[i]? = some attr ∧ Deserves s.attrs sensorIndex attr ∧
    triggerSensor s sensorIndex timestamp = attributeTo s i sensorIndex timestamp) ∨
  Unclaimed s.attrs sensorIndex ∧ triggerSensor s sensorIndex timestamp = (s, [])

theorem earliest_iff {claimed : Attribution → Bool} {i : Nat} (hAttr : attrs[i]? = some attr) :
    Earliest attrs claimed attr ↔ (attr, i) ∈ candidates claimed 0 attrs ∧
      ∀ c ∈ candidates claimed 0 attrs, attr.prevTime ≤ c.1.prevTime := by
  rw [mem_candidates]
  constructor
  · rintro ⟨hClaims, hEarliest⟩
    refine ⟨⟨hAttr, hClaims⟩, ?_⟩
    rintro ⟨other, j⟩ hMem
    obtain ⟨hOther, hClaims'⟩ := mem_candidates.mp hMem
    exact hEarliest other (List.mem_of_getElem? hOther) hClaims'
  · rintro ⟨⟨-, hClaims⟩, hEarliest⟩
    refine ⟨hClaims, fun other hMem hClaims' => ?_⟩
    obtain ⟨j, hOther⟩ := List.mem_iff_getElem?.mp hMem
    exact hEarliest (other, j) (mem_candidates.mpr ⟨hOther, hClaims'⟩)

theorem deserves_iff {i : Nat} (hAttr : attrs[i]? = some attr) :
    Deserves attrs sensorIndex attr ↔ (attr, i) ∈ considered attrs sensorIndex ∧
      ∀ c ∈ considered attrs sensorIndex, attr.prevTime ≤ c.1.prevTime := by
  rw [Deserves, earliest_iff hAttr, earliest_iff hAttr, ← candidates_eq_nil_iff, considered]
  by_cases hNone : candidates (hasPrimary sensorIndex) 0 attrs = []
  · simp [hNone]
  · simp [hNone]

theorem considered_eq_nil_iff :
    considered attrs sensorIndex = [] ↔ Unclaimed attrs sensorIndex := by
  rw [considered, Unclaimed]
  by_cases hNone : candidates (hasPrimary sensorIndex) 0 attrs = []
  · rw [if_pos hNone, candidates_eq_nil_iff]
    have hPrimary := candidates_eq_nil_iff.mp hNone
    constructor
    · intro hSecondary attr hMem
      exact ⟨hPrimary attr hMem, hSecondary attr hMem⟩
    · intro hBoth attr hMem
      exact (hBoth attr hMem).2
  · rw [if_neg hNone]
    constructor
    · intro hNil
      exact absurd hNil hNone
    · intro hBoth
      exact absurd (candidates_eq_nil_iff.mpr fun attr hMem => (hBoth attr hMem).1) hNone

/-- The trigger goes to some candidate, with the time that the loop takes for the minimum. -/
theorem triggerSensor_eq (s : SensorServer) (sensorIndex : Int) (timestamp : Nat) :
    Unclaimed s.attrs sensorIndex ∧ triggerSensor s sensorIndex timestamp = (s, []) ∨
      ∃ c ∈ considered s.attrs sensorIndex,
        (scan (considered s.attrs sensorIndex)).time = c.1.prevTime ∧
        s.attrs[c.2]? = some c.1 ∧
        triggerSensor s sensorIndex timestamp = attributeTo s c.2 sensorIndex timestamp := by
  rw [triggerSensor, attrIndex_eq]
  by_cases hNil : considered s.attrs sensorIndex = []
  · left
    rw [hNil]
    exact ⟨considered_eq_nil_iff.mp hNil, rfl⟩
  · right
    obtain ⟨⟨attr, i⟩, hMem, hScan⟩ := scan_mem hNil
    have hPos : 0 ≤ (i : Int) := Int.natCast_nonneg i
    have hAttr : s.attrs[i]? = some attr := by
      rw [considered] at hMem
      split_ifs at hMem
      · exact (mem_candidates.mp hMem).1
      · exact (mem_candidates.mp hMem).1
    refine ⟨_, hMem, by rw [hScan], hAttr, ?_⟩
    rw [hScan]
    dsimp only
    rw [if_pos hPos, Int.toNat_natCast]

/-- Two attributions have the same effect only if the time of the hit is no news to either. -/
theorem attributeTo_inj {s : SensorServer} {i j : Nat} {a b : Attribution}
    (ha : s.attrs[i]? = some a) (hb : s.attrs[j]? = some b)
    (h : attributeTo s i sensorIndex timestamp = attributeTo s j sensorIndex timestamp) :
    a.prevTime = b.prevTime := by
  have hAttrs (i : Nat) : (attributeTo s i sensorIndex timestamp).1.attrs
      = s.attrs.modify i (·.hit timestamp) := by
    rw [attributeTo]
    split_ifs <;> rfl
  have hModify := congrArg (fun result => result.1.attrs) h
  simp only [hAttrs] at hModify
  by_cases hij : i = j
  · subst hij
    rw [Option.some_inj.mp (ha.symm.trans hb)]
  · have hAt (k : Nat) := congrArg (fun attrs => (attrs[k]?).map Attribution.prevTime) hModify
    have hi := hAt i
    have hj := hAt j
    simp [ha, Ne.symm hij, Attribution.hit] at hi
    simp [hb, hij, Attribution.hit] at hj
    rw [← hi, hj]

/-- A train that has never hit a sensor gets a trigger it has a claim to only if no train with a
hit behind it stands after it in the table. -/
theorem rightlyAttributed_iff (s : SensorServer) (sensorIndex : Int) (timestamp : Nat) :
    RightlyAttributed s sensorIndex timestamp ↔ NeverHitLast (considered s.attrs sensorIndex) := by
  rcases triggerSensor_eq s sensorIndex timestamp with ⟨hNone, hSame⟩ | ⟨c, hMem, hTime, hAttr, hEq⟩
  · have hNil := considered_eq_nil_iff.mpr hNone
    rw [hNil]
    constructor
    · intro _ last hLast
      cases hLast
    · intro _
      exact Or.inr ⟨hNone, hSame⟩
  · have hne := List.ne_nil_of_mem hMem
    rw [← scan_minimal_iff hne, hTime]
    constructor
    · rintro (⟨i, attr, hi, hDeserves, hTrigger⟩ | ⟨hNone, -⟩)
      · rw [attributeTo_inj hAttr hi (hEq.symm.trans hTrigger)]
        exact ((deserves_iff hi).mp hDeserves).2
      · exact absurd (considered_eq_nil_iff.mpr hNone) hne
    · intro hMinimal
      exact Or.inl ⟨c.2, c.1, hAttr, (deserves_iff hAttr).mpr ⟨hMem, hMinimal⟩, hEq⟩

/-- The second train has taken the first claim of the first one. -/
def twoTrains (sensorBuf : Nat → SensorDelivery) : SensorServer :=
  { initSensorServer sensorBuf with
    attrs := [⟨7, 5, -1, -1, 20, -1, by decide⟩, ⟨8, 6, 5, -1, 20, -1, by decide⟩] }

theorem not_rightlyAttributed :
    ¬RightlyAttributed (twoTrains fun _ => ⟨0, 0, 0, 0⟩) 20 40 := by
  have hTrigger : triggerSensor (twoTrains fun _ => ⟨0, 0, 0, 0⟩) 20 40
      = attributeTo (twoTrains fun _ => ⟨0, 0, 0, 0⟩) 1 20 40 := rfl
  rintro (⟨i, attr, hi, hDeserves, hEq⟩ | ⟨hNone, -⟩)
  · have hTime : (5 : Int) = attr.prevTime := attributeTo_inj rfl hi (hTrigger.symm.trans hEq)
    have hLe := ((deserves_iff hi).mp hDeserves).2 (⟨7, 5, -1, -1, 20, -1, by decide⟩, 0)
      (by decide)
    rw [← hTime] at hLe
    exact absurd hLe (by decide)
  · exact (hNone ⟨7, 5, -1, -1, 20, -1, by decide⟩ List.mem_cons_self).1 rfl

end TrainKernel.User
