import TrainKernel.User.EngineerSafety
import TrainKernel.User.EngineerTurns

/-!
# Runs of an engineer

What has happened in a run is kept in a record that grows with every round. An invariant of the
engineer and the record is an invariant of the runs.
-/

namespace TrainKernel.User

open Library.Outcome

variable {Node : Type} [DecidableEq Node] {world : EngineerWorld Node} {α : Type}

omit [DecidableEq Node] in
/-- The turn in which the message of the round is handled. -/
def EngineerRound.turn (round : EngineerRound Node) (e : Engineer Node) : EngineerTurn Node :=
  ⟨e, round.trackBitmap, []⟩

/-- The record after the rounds, or after those before a fault. -/
def recordRounds (world : EngineerWorld Node)
    (add : α → Engineer Node → EngineerRound Node → EngineerTurn Node → α) :
    Engineer Node → α → List (EngineerRound Node) → α
  | _, record, [] => record
  | e, record, round :: rounds =>
    match engineerRound world e round with
    | .ok t => recordRounds world add t.engineer (add record e round t) rounds
    | .error _ => record

variable {add : α → Engineer Node → EngineerRound Node → EngineerTurn Node → α}
variable {P : Engineer Node → EngineerRound Node → Prop}

theorem recordRounds_invariant (Inv : Engineer Node → α → Prop) {e e' : Engineer Node}
    {record : α} {rounds : List (EngineerRound Node)}
    (hStep : ∀ e record round, Inv e record → P e round →
      Yields (fun t => Inv t.engineer (add record e round t)) (engineerRound world e round))
    (h : Inv e record) (hRounds : EveryRound world P e rounds)
    (hRun : engineerServer world e rounds = .ok e') :
    Inv e' (recordRounds world add e record rounds) := by
  induction rounds generalizing e record with
  | nil =>
    obtain rfl := Except.ok.inj hRun
    exact h
  | cons round rounds ih =>
    obtain ⟨hRound, hRounds⟩ := hRounds
    obtain ⟨t, hTurn, hRest⟩ := exists_of_bind_eq_ok hRun
    rw [hTurn] at hRounds
    rw [recordRounds, hTurn]
    exact ih ((hStep e record round h hRound).of_ok hTurn) hRounds hRest

theorem everyRound_concat {e e' : Engineer Node} {rounds : List (EngineerRound Node)}
    {round : EngineerRound Node} (h : EveryRound world P e (rounds ++ [round]))
    (hRun : engineerServer world e rounds = .ok e') : EveryRound world P e rounds ∧ P e' round := by
  induction rounds generalizing e with
  | nil =>
    obtain rfl := Except.ok.inj hRun
    exact ⟨trivial, h.1⟩
  | cons first rounds ih =>
    obtain ⟨t, hTurn, hLater⟩ := exists_of_bind_eq_ok hRun
    rw [List.cons_append, EveryRound, hTurn] at h
    rw [EveryRound, hTurn]
    obtain ⟨hRest, hLast⟩ := ih h.2 hLater
    exact ⟨⟨h.1, hRest⟩, hLast⟩

end TrainKernel.User
