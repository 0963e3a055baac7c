import Mathlib.Logic.Function.Basic
import TrainKernel.User.Controls

/-!
# Turnouts as a map

The bitmap is a map from the numbers of the turnouts to how they stand. Any number of calls leaves
each turnout as the last call for it says, and the train controller is told the same.
-/

namespace TrainKernel.User

structure TurnoutCall where
  turnoutNumber : Int
  direction : Char

def TurnoutCall.Expected (call : TurnoutCall) : Prop :=
  IsTurnout call.turnoutNumber ∧ (call.direction = 'c' ∨ call.direction = 's')

/-- The command that says what the call says. -/
def TurnoutCall.command (call : TurnoutCall) : List Int :=
  [if call.direction = 'c' then controlCurved else controlStraight, call.turnoutNumber,
    controlSolenoidOff]

def Controls.setTurnouts (controls : Controls) (calls : List TurnoutCall) :
    Except ControlFault Controls :=
  calls.foldlM (fun controls call => controls.setTurnout call.turnoutNumber call.direction) controls

def lastDirection (calls : List TurnoutCall) (turnoutNumber : Int) : Option Char :=
  (calls.filter (·.turnoutNumber = turnoutNumber)).getLast?.map TurnoutCall.direction

/-- Which turnouts are curved, by the bitmap. -/
def Controls.Shows (controls : Controls) (curved : Int → Bool) : Prop :=
  ∀ n, IsTurnout n → turnoutIsCurved controls.trackBitmap n = some (curved n)

section Calls

variable {call : TurnoutCall} {calls : List TurnoutCall} {turnoutNumber : Int}

theorem lastDirection_concat_self :
    lastDirection (calls ++ [call]) call.turnoutNumber = some call.direction := by
  rw [lastDirection, List.filter_append, List.filter_singleton, decide_eq_true rfl, cond_true,
    List.getLast?_concat, Option.map_some]

theorem lastDirection_concat_of_ne (h : call.turnoutNumber ≠ turnoutNumber) :
    lastDirection (calls ++ [call]) turnoutNumber = lastDirection calls turnoutNumber := by
  rw [lastDirection, List.filter_append, List.filter_singleton, decide_eq_false h, cond_false,
    List.append_nil, lastDirection]

end Calls

namespace Controls

variable {controls : Controls} {call : TurnoutCall} {calls : List TurnoutCall}
variable {curved : Int → Bool}

theorem trainSetSwitch_eq (hCall : call.Expected) (controls : Controls) :
    controls.trainSetSwitch call.turnoutNumber call.direction =
      .ok (controls.send call.command) := by
  obtain ⟨hNumber, hDirection⟩ := hCall
  rw [trainSetSwitch, ensure, if_pos hNumber.symm, ensure, if_pos (hDirection.imp_right Or.inl)]
  have hNotUpper : call.direction ≠ 'C' := by
    cases hDirection with
    | inl hCurved =>
      rw [hCurved]
      decide
    | inr hStraight =>
      rw [hStraight]
      decide
  simp only [hNotUpper, or_false]
  rfl

theorem setTurnout_spec (hCall : call.Expected) (controls : Controls) :
    ∃ controls', controls.setTurnout call.turnoutNumber call.direction = .ok controls' ∧
      controls'.sent = controls.sent ++ call.command ∧
      turnoutIsCurved controls'.trackBitmap call.turnoutNumber =
        some (decide (call.direction = 'c')) ∧
      ∀ m, m ≠ call.turnoutNumber →
        turnoutIsCurved controls'.trackBitmap m = turnoutIsCurved controls.trackBitmap m := by
  have hDirection : (if decide (call.direction = 'c') then 'c' else 's') = call.direction := by
    cases hCall.2 with
    | inl hCurved => simp only [hCurved, decide_true, if_true]
    | inr hStraight =>
      simp only [hStraight, Char.reduceEq, decide_false, Bool.false_eq_true, if_false]
  obtain ⟨trackBitmap, hSet, hNumber, hOther⟩ :=
    turnoutIsCurved_setBitmap hCall.1 (decide (call.direction = 'c')) controls.trackBitmap
  rw [hDirection] at hSet
  refine ⟨{ controls with trackBitmap := trackBitmap }.send call.command, ?_, rfl, ?_, ?_⟩
  · rw [setTurnout, hSet]
    exact trainSetSwitch_eq hCall _
  · exact hNumber
  · exact hOther

/-- A call updates the map at one place. -/
theorem Shows.setTurnout (h : controls.Shows curved) (hCall : call.Expected) :
    ∃ controls', controls.setTurnout call.turnoutNumber call.direction = .ok controls' ∧
      controls'.sent = controls.sent ++ call.command ∧
      controls'.Shows (Function.update curved call.turnoutNumber (call.direction = 'c')) := by
  obtain ⟨controls', hSet, hSent, hNumber, hOther⟩ := setTurnout_spec hCall controls
  refine ⟨controls', hSet, hSent, ?_⟩
  intro n hTurnout
  rcases eq_or_ne n call.turnoutNumber with rfl | hApart
  · rw [Function.update_self]
    exact hNumber
  · rw [Function.update_of_ne hApart, hOther n hApart]
    exact h n hTurnout

theorem Shows.setTurnouts (h : controls.Shows fun _ => false)
    (hCalls : ∀ call ∈ calls, call.Expected) :
    ∃ controls', controls.setTurnouts calls = .ok controls' ∧
      controls'.sent = controls.sent ++ calls.flatMap TurnoutCall.command ∧
      controls'.Shows fun n => lastDirection calls n = some 'c' := by
  induction calls using List.reverseRecOn with
  | nil =>
    refine ⟨controls, rfl, ?_, h⟩
    rw [List.flatMap_nil, List.append_nil]
  | append_singleton calls call ih =>
    obtain ⟨hBefore, hLast⟩ := List.forall_mem_append.mp hCalls
    obtain ⟨controls₁, hRun, hSent, hShows⟩ := ih hBefore
    obtain ⟨controls₂, hSet, hSentLast, hUpdated⟩ :=
      hShows.setTurnout (hLast call (List.mem_singleton_self call))
    refine ⟨controls₂, ?_, ?_, ?_⟩
    · rw [Controls.setTurnouts, List.foldlM_append, ← Controls.setTurnouts, hRun]
      change (controls₁.setTurnout _ _ >>= pure) = _
      rw [bind_pure, hSet]
    · rw [hSentLast, hSent, List.flatMap_append, List.flatMap_singleton, List.append_assoc]
    · intro n hTurnout
      beta_reduce
      rw [hUpdated n hTurnout]
      rcases eq_or_ne n call.turnoutNumber with rfl | hApart
      · rw [Function.update_self, lastDirection_concat_self]
        simp only [Option.some.injEq]
      · rw [Function.update_of_ne hApart, lastDirection_concat_of_ne hApart.symm]

theorem shows_false (h : controls.trackBitmap = 0) : controls.Shows fun _ => false := by
  intro n hTurnout
  obtain ⟨bitAddress, hAddress⟩ := exists_bitAddress hTurnout
  rw [turnoutIsCurved_eq hAddress, h, BitVec.ofNat_eq_ofNat, BitVec.getLsbD_zero]

end Controls

/-- After any calls each turnout is as the last call for it said, a further call leaves all
turnouts but its own, and one command was sent for each call. -/
theorem turnouts_follow_last_calls (controls : Controls) (hStart : controls.trackBitmap = 0)
    (calls : List TurnoutCall) (hCalls : ∀ call ∈ calls, call.Expected) :
    ∃ controls', controls.setTurnouts calls = .ok controls' ∧
      (∀ n, IsTurnout n → turnoutIsCurved controls'.trackBitmap n =
        some (decide (lastDirection calls n = some 'c'))) ∧
      (∀ call : TurnoutCall, call.Expected → ∃ controls'',
        controls'.setTurnout call.turnoutNumber call.direction = .ok controls'' ∧
          controls''.sent = controls'.sent ++ call.command ∧
          ∀ m, m ≠ call.turnoutNumber → turnoutIsCurved controls''.trackBitmap m =
            turnoutIsCurved controls'.trackBitmap m) ∧
      controls'.sent = controls.sent ++ calls.flatMap TurnoutCall.command := by
  obtain ⟨controls', hRun, hSent, hShows⟩ := (Controls.shows_false hStart).setTurnouts hCalls
  refine ⟨controls', hRun, hShows, ?_, hSent⟩
  intro call hCall
  obtain ⟨controls'', hSet, hSentLast, -, hOther⟩ := Controls.setTurnout_spec hCall controls'
  exact ⟨controls'', hSet, hSentLast, hOther⟩

theorem turnouts_follow_last_calls_thrice :
    ∃ controls', idleControls.setTurnouts [⟨11, 'c'⟩, ⟨153, 'c'⟩, ⟨11, 's'⟩] = .ok controls' ∧
      turnoutIsCurved controls'.trackBitmap 11 = some false ∧
      turnoutIsCurved controls'.trackBitmap 153 = some true ∧
      controls'.sent = [34, 11, 32, 34, 153, 32, 33, 11, 32] := by
  have hCalls : ∀ call ∈ [⟨11, 'c'⟩, ⟨153, 'c'⟩, ⟨11, 's'⟩], TurnoutCall.Expected call := by
    simp only [List.forall_mem_cons, TurnoutCall.Expected, IsTurnout]
    decide
  obtain ⟨controls', hRun, hCurved, -, hSent⟩ :=
    turnouts_follow_last_calls idleControls rfl _ hCalls
  exact ⟨controls', hRun, hCurved 11 (Or.inl (by decide)), hCurved 153 (Or.inr (by decide)), hSent⟩

end TrainKernel.User
