import Mathlib.Data.Fintype.Prod
import TrainKernel.User.TrackServer

/-!
# What a reservation promises

No piece of track is ever owned in both directions. A request that fails halfway keeps the
nodes it got, and a release takes a node from whoever owns it; for both, the requests that
do no harm are described exactly.
-/

namespace TrainKernel.User

open Function

variable {Node : Type} {track : Track Node} {owner : Owners Node} {tid : Nat}
variable {message : TrackServerMessage Node} {n : Node} {l got : List Node}

theorem isReservable_iff : isReservable track owner n tid = true ↔
    (owner n = -1 ∨ owner n = tid) ∧ owner (track.reverse n) = -1 := by
  simp [isReservable]

/-- Node `n` can be reserved by `tid` in a request that has got the nodes `got` so far. -/
structure Grantable (track : Track Node) (owner : Owners Node) (tid : Nat) (got : List Node)
    (n : Node) : Prop where
  free : owner n = -1 ∨ owner n = tid
  reverse_free : owner (track.reverse n) = -1
  reverse_not_got : track.reverse n ∉ got

def AllGrantable (track : Track Node) (owner : Owners Node) (tid : Nat) (l : List Node) : Prop :=
  ∀ before n after, l = before ++ n :: after → Grantable track owner tid before n

theorem AllGrantable.free (h : AllGrantable track owner tid l) (hn : n ∈ l) :
    owner n = -1 ∨ owner n = tid := by
  obtain ⟨before, after, rfl⟩ := List.append_of_mem hn
  exact (h before n after rfl).free

theorem AllGrantable.concat (h : AllGrantable track owner tid l)
    (hn : Grantable track owner tid l n) : AllGrantable track owner tid (l ++ [n]) := by
  intro before m after hEq
  rcases List.eq_nil_or_concat after with rfl | ⟨after, last, rfl⟩
  · obtain ⟨rfl, hLast⟩ := List.append_inj' hEq rfl
    cases hLast
    exact hn
  · apply h before m after
    rw [List.concat_eq_append, ← List.cons_append, ← List.append_assoc] at hEq
    exact (List.append_inj' hEq rfl).1

theorem first_blocked_unique {before before' after after' : List Node} {n n' : Node}
    (hEq : before ++ n :: after = before' ++ n' :: after')
    (h : AllGrantable track owner tid before) (hn : ¬Grantable track owner tid before n)
    (h' : AllGrantable track owner tid before') (hn' : ¬Grantable track owner tid before' n') :
    before = before' := by
  rcases List.append_eq_append_iff.mp hEq with ⟨rest, rfl, hRest⟩ | ⟨rest, rfl, hRest⟩
  · cases rest with
    | nil => rw [List.append_nil]
    | cons m rest =>
      obtain ⟨rfl, -⟩ := List.cons.inj hRest
      exact absurd (h' before n rest rfl) hn
  · cases rest with
    | nil => rw [List.append_nil]
    | cons m rest =>
      obtain ⟨rfl, -⟩ := List.cons.inj hRest
      exact absurd (h before' n' rest rfl) hn'

variable [DecidableEq Node]

theorem releaseLoop_apply (l : List Node) (n : Node) :
    releaseLoop owner l n = if n ∈ l then -1 else owner n := by
  induction l generalizing owner with
  | nil => rfl
  | cons m l ih =>
    rw [releaseLoop, ih]
    by_cases hm : n = m
    · subst hm
      simp
    · simp [hm]

def HeadOnFree (track : Track Node) (owner : Owners Node) : Prop :=
  ∀ n, owner n = -1 ∨ owner (track.reverse n) = -1

theorem HeadOnFree.release (h : HeadOnFree track owner) (l : List Node) :
    HeadOnFree track (releaseLoop owner l) := by
  intro n
  rw [releaseLoop_apply, releaseLoop_apply]
  rcases h n with hn | hn
  · exact Or.inl (by rw [hn, ite_self])
  · exact Or.inr (by rw [hn, ite_self])

theorem HeadOnFree.reserve (hInvolutive : Involutive track.reverse)
    (hFixed : ∀ n, track.reverse n ≠ n) (h : HeadOnFree track owner) (l : List Node) :
    HeadOnFree track (reserveLoop track tid owner l).1 := by
  induction l generalizing owner with
  | nil => exact h
  | cons m l ih =>
    rw [reserveLoop]
    cases hFree : isReservable track owner m tid with
    | false =>
      simp only [Bool.not_false, if_true]
      split <;> exact h
    | true =>
      simp only [Bool.not_true, Bool.false_eq_true, if_false]
      have hReverse := (isReservable_iff.mp hFree).2
      refine ih fun n => ?_
      by_cases hn : n = m
      · subst hn
        exact Or.inr (by rw [update_of_ne (hFixed n), hReverse])
      · by_cases hr : track.reverse n = m
        · have hEq : track.reverse m = n := by rw [← hr, hInvolutive]
          rw [hEq] at hReverse
          exact Or.inl (by rw [update_of_ne hn, hReverse])
        · rw [update_of_ne hn, update_of_ne hr]
          exact h n

/-- However messages come, a node and its reverse are never both owned. -/
theorem head_on_excluded (hInvolutive : Involutive track.reverse)
    (hFixed : ∀ n, track.reverse n ≠ n) (messages : List (Nat × TrackServerMessage Node))
    (n : Node) :
    ¬(serveTracks track (Owners.free Node) messages n ≠ -1 ∧
      serveTracks track (Owners.free Node) messages (track.reverse n) ≠ -1) := by
  have hRun (owner : Owners Node) (h : HeadOnFree track owner) :
      HeadOnFree track (serveTracks track owner messages) := by
    induction messages generalizing owner with
    | nil => exact h
    | cons m messages ih => exact ih _ ((h.release _).reserve hInvolutive hFixed _)
  rintro ⟨hn, hr⟩
  rcases hRun (Owners.free Node) (fun _ => Or.inl rfl) n with h | h
  · exact hn h
  · exact hr h

def twoPieces : Track (Bool × Bool) where
  idx n := 2 * n.1.toNat + n.2.toNat
  type _ := .sensor
  num n := 2 * n.1.toNat + n.2.toNat
  reverse n := (n.1, !n.2)
  dest _ _ := none
  dist _ _ := 0

def bothWays : List (Nat × TrackServerMessage (Bool × Bool)) :=
  [(5, ⟨[(false, false), (true, false)], []⟩), (6, ⟨[(false, true)], []⟩)]

theorem head_on_excluded_twoPieces :
    ¬(serveTracks twoPieces (Owners.free (Bool × Bool)) bothWays (false, false) ≠ -1 ∧
      serveTracks twoPieces (Owners.free (Bool × Bool)) bothWays (false, true) ≠ -1) :=
  head_on_excluded (show ∀ n, twoPieces.reverse (twoPieces.reverse n) = n by decide) (by decide)
    bothWays (false, false)

def released (owner : Owners Node) (message : TrackServerMessage Node) : Owners Node := fun n =>
  if n ∈ message.releaseNodes then -1 else owner n

def claimed (owner : Owners Node) (tid : Nat) (got : List Node) : Owners Node := fun n =>
  if n ∈ got then tid else owner n

theorem isReservable_claimed (hGot : ∀ m ∈ got, owner m = -1 ∨ owner m = tid) :
    isReservable track (claimed owner tid got) n tid = true ↔ Grantable track owner tid got n := by
  have hTid : (tid : Int) ≠ -1 := by omega
  rw [isReservable_iff, claimed, claimed]
  constructor
  · rintro ⟨hFree, hReverse⟩
    split at hReverse
    · exact absurd hReverse hTid
    rename_i hNot
    refine ⟨?_, hReverse, hNot⟩
    split at hFree
    · rename_i hMem
      exact hGot n hMem
    · exact hFree
  · rintro ⟨hFree, hReverse, hNot⟩
    rw [if_neg hNot]
    refine ⟨?_, hReverse⟩
    split
    · exact Or.inr rfl
    · exact hFree

theorem claimed_concat (owner : Owners Node) (tid : Nat) (got : List Node) (n : Node) :
    update (claimed owner tid got) n tid = claimed owner tid (got ++ [n]) := by
  funext m
  by_cases hm : m = n
  · subst hm
    simp [claimed]
  · simp [claimed, hm]

theorem reserveLoop_claimed (hGot : AllGrantable track owner tid got) (l : List Node) :
    (AllGrantable track owner tid (got ++ l) ∧
      reserveLoop track tid (claimed owner tid got) l = (claimed owner tid (got ++ l), .success)) ∨
    ∃ before n after, l = before ++ n :: after ∧ AllGrantable track owner tid (got ++ before) ∧
      ¬Grantable track owner tid (got ++ before) n ∧
      (reserveLoop track tid (claimed owner tid got) l).1 = claimed owner tid (got ++ before) ∧
      (reserveLoop track tid (claimed owner tid got) l).2 ≠ .success := by
  induction l generalizing got with
  | nil =>
    rw [List.append_nil]
    exact Or.inl ⟨hGot, rfl⟩
  | cons m l ih =>
    have hIff : isReservable track (claimed owner tid got) m tid = true ↔ _ :=
      isReservable_claimed fun x hx => hGot.free hx
    rw [reserveLoop]
    by_cases hFree : isReservable track (claimed owner tid got) m tid = true
    · rw [hFree, Bool.not_true, if_neg Bool.false_ne_true, claimed_concat]
      rcases ih (hGot.concat (hIff.mp hFree)) with ⟨hAll, hEq⟩ | ⟨before, n, after, rfl, hRest⟩
      · rw [List.append_assoc] at hAll hEq
        exact Or.inl ⟨hAll, hEq⟩
      · rw [List.append_assoc] at hRest
        exact Or.inr ⟨m :: before, n, after, rfl, hRest⟩
    · rw [Bool.not_eq_true] at hFree
      refine Or.inr ⟨[], m, l, rfl, by rwa [List.append_nil], ?_, ?_⟩
      · rw [List.append_nil, ← hIff, hFree]
        exact Bool.false_ne_true
      · rw [hFree, Bool.not_false, if_pos rfl, List.append_nil]
        split <;> exact ⟨rfl, nofun⟩

theorem releaseLoop_eq (owner : Owners Node) (message : TrackServerMessage Node) :
    releaseLoop owner message.releaseNodes = released owner message := by
  funext n
  rw [releaseLoop_apply, released]

theorem serveTrack_claimed (track : Track Node) (owner : Owners Node) (tid : Nat)
    (message : TrackServerMessage Node) :
    (AllGrantable track (released owner message) tid message.reserveNodes ∧
      serveTrack track owner tid message =
        (claimed (released owner message) tid message.reserveNodes, .success)) ∨
    ∃ before n after, message.reserveNodes = before ++ n :: after ∧
      AllGrantable track (released owner message) tid before ∧
      ¬Grantable track (released owner message) tid before n ∧
      (serveTrack track owner tid message).1 = claimed (released owner message) tid before ∧
      (serveTrack track owner tid message).2 ≠ .success := by
  have hNone : claimed (released owner message) tid [] = released owner message := by
    funext n
    simp [claimed]
  have hStart : AllGrantable track (released owner message) tid [] := by
    intro before n after hEq
    simp at hEq
  have hLoop := reserveLoop_claimed hStart message.reserveNodes
  rw [hNone] at hLoop
  rw [serveTrack, releaseLoop_eq]
  exact hLoop

/-- After a success the caller owns every node it asked for, and after a failure the owners
are what the release loop left. -/
def AllOrNothing (track : Track Node) (owner : Owners Node) (tid : Nat)
    (message : TrackServerMessage Node) : Prop :=
  ((serveTrack track owner tid message).2 = .success →
    ∀ n ∈ message.reserveNodes, (serveTrack track owner tid message).1 n = tid) ∧
  ((serveTrack track owner tid message).2 ≠ .success →
    (serveTrack track owner tid message).1 = releaseLoop owner message.releaseNodes)

/-- A request is all or nothing exactly when the caller owns already, after the release, every
node that comes before the first one that cannot be reserved in its turn. -/
theorem all_or_nothing_iff (track : Track Node) (owner : Owners Node) (tid : Nat)
    (message : TrackServerMessage Node) : AllOrNothing track owner tid message ↔
      ∀ before n after, message.reserveNodes = before ++ n :: after →
        AllGrantable track (released owner message) tid before →
        ¬Grantable track (released owner message) tid before n →
        ∀ m ∈ before, released owner message m = tid := by
  rw [AllOrNothing, releaseLoop_eq]
  rcases serveTrack_claimed track owner tid message with
    ⟨hAll, hEq⟩ | ⟨before, n, after, hSplit, hBefore, hBlocked, hOwners, hReply⟩
  · rw [hEq]
    refine iff_of_true ⟨fun _ n hn => if_pos hn, fun hNot => absurd rfl hNot⟩ ?_
    intro before n after hSplit _ hBlocked
    exact absurd (hAll before n after hSplit) hBlocked
  · rw [hOwners]
    constructor
    · rintro ⟨-, hNothing⟩ before' n' after' hSplit' hBefore' hBlocked' m hm
      have hSame : before' = before :=
        first_blocked_unique (hSplit'.symm.trans hSplit) hBefore' hBlocked' hBefore hBlocked
      rw [hSame] at hm
      have hOwner := congrFun (hNothing hReply) m
      rw [claimed, if_pos hm] at hOwner
      exact hOwner.symm
    · intro hOwned
      refine ⟨fun hSuccess => absurd hSuccess hReply, fun _ => ?_⟩
      funext m
      rw [claimed]
      split
      · rename_i hm
        exact (hOwned before n after hSplit hBefore hBlocked m hm).symm
      · rfl

/-- Task 6 owns the second piece: task 5 asks for both, fails, and keeps the first one. -/
theorem not_all_or_nothing :
    ¬AllOrNothing twoPieces (fun n => if n = (true, false) then 6 else -1) 5
      ⟨[(false, false), (true, false)], []⟩ := by
  rintro ⟨-, hNothing⟩
  exact absurd (congrFun (hNothing (by decide)) (false, false)) (by decide)

def StealsNothing (track : Track Node) (owner : Owners Node) (tid : Nat)
    (message : TrackServerMessage Node) : Prop :=
  ∀ n, owner n ≠ -1 → owner n ≠ tid → (serveTrack track owner tid message).1 n = owner n

def ReleasesOwn (owner : Owners Node) (tid : Nat) (message : TrackServerMessage Node) : Prop :=
  ∀ n ∈ message.releaseNodes, owner n = -1 ∨ owner n = tid

theorem reserveLoop_foreign (hn : owner n ≠ -1) (hTid : owner n ≠ tid) (l : List Node) :
    (reserveLoop track tid owner l).1 n = owner n := by
  induction l generalizing owner with
  | nil => rfl
  | cons m l ih =>
    rw [reserveLoop]
    cases hFree : isReservable track owner m tid with
    | false =>
      rw [Bool.not_false, if_pos rfl]
      split <;> rfl
    | true =>
      have hNe : n ≠ m := by
        rintro rfl
        exact (isReservable_iff.mp hFree).1.elim hn hTid
      rw [Bool.not_true, if_neg Bool.false_ne_true]
      rw [ih (by rwa [update_of_ne hNe]) (by rwa [update_of_ne hNe]), update_of_ne hNe]

theorem reserveLoop_free (hn : owner n = -1 ∨ owner n = tid) (l : List Node) :
    (reserveLoop track tid owner l).1 n = -1 ∨ (reserveLoop track tid owner l).1 n = tid := by
  induction l generalizing owner with
  | nil => exact hn
  | cons m l ih =>
    rw [reserveLoop]
    cases hFree : isReservable track owner m tid with
    | false =>
      rw [Bool.not_false, if_pos rfl]
      split <;> exact hn
    | true =>
      rw [Bool.not_true, if_neg Bool.false_ne_true]
      apply ih
      by_cases hm : n = m
      · subst hm
        exact Or.inr (update_self ..)
      · rwa [update_of_ne hm]

theorem stealsNothing_iff (track : Track Node) (owner : Owners Node) (tid : Nat)
    (message : TrackServerMessage Node) :
    StealsNothing track owner tid message ↔ ReleasesOwn owner tid message := by
  constructor
  · intro hSteals n hn
    by_contra hForeign
    rw [not_or] at hForeign
    have hOwner := hSteals n hForeign.1 hForeign.2
    have hFree : releaseLoop owner message.releaseNodes n = -1 := by
      rw [releaseLoop_apply, if_pos hn]
    have hServed : (serveTrack track owner tid message).1 n = -1 ∨ _ = (tid : Int) :=
      reserveLoop_free (Or.inl hFree) message.reserveNodes
    exact hServed.elim (fun h => hForeign.1 (hOwner.symm.trans h))
      fun h => hForeign.2 (hOwner.symm.trans h)
  · intro hRelease n hn hTid
    have hKept : releaseLoop owner message.releaseNodes n = owner n := by
      rw [releaseLoop_apply, if_neg]
      intro hMem
      exact (hRelease n hMem).elim hn hTid
    rw [serveTrack, reserveLoop_foreign (by rwa [hKept]) (by rwa [hKept]), hKept]

def Along (track : Track Node) (P : Owners Node → Nat → TrackServerMessage Node → Prop) :
    Owners Node → List (Nat × TrackServerMessage Node) → Prop
  | _, [] => True
  | owner, (tid, message) :: rest =>
    P owner tid message ∧ Along track P (serveTrack track owner tid message).1 rest

/-- Whatever came before, a message steals nothing exactly when it releases no foreign node;
and so a whole run steals nothing exactly when none of its messages does that. -/
theorem steals_nothing_iff (track : Track Node) :
    (∀ messages tid message,
      StealsNothing track (serveTracks track (Owners.free Node) messages) tid message ↔
        ReleasesOwn (serveTracks track (Owners.free Node) messages) tid message) ∧
    ∀ messages, Along track (StealsNothing track) (Owners.free Node) messages ↔
      Along track ReleasesOwn (Owners.free Node) messages := by
  refine ⟨fun messages tid message => stealsNothing_iff track _ tid message, fun messages => ?_⟩
  have hRun (owner : Owners Node) : Along track (StealsNothing track) owner messages ↔
      Along track ReleasesOwn owner messages := by
    induction messages generalizing owner with
    | nil => rfl
    | cons m messages ih => exact and_congr (stealsNothing_iff track owner m.1 m.2) (ih _)
  exact hRun _

/-- Task 5 owns a node; task 6 releases it and takes it. -/
theorem steals_something : ¬∀ messages tid message, StealsNothing twoPieces
    (serveTracks twoPieces (Owners.free (Bool × Bool)) messages) tid message := by
  intro hSteals
  exact absurd (hSteals [(5, ⟨[(true, true)], []⟩)] 6 ⟨[(true, true)], [(true, true)]⟩ (true, true)
    (by decide) (by decide)) (by decide)

end TrainKernel.User
