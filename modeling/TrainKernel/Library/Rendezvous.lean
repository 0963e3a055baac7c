import Mathlib.Data.List.Nodup
import Mathlib.Logic.Function.Basic

/-!
# Rendezvous message passing

A party that sends stops until its message is answered; a party that receives stops
until there is a message. Messages are numbered by the step in which they are sent,
and a log keeps what happens to each one. Every run of the protocol hands messages
over in the order they were sent and answers each of them once.
-/

namespace TrainKernel.Library.Rendezvous

open Function

variable {α : Type*}

inductive Phase (α : Type*) where
  | idle
  | sending (r : α)
  | receiving
  | replying (r : α)

inductive Stage where
  | sent
  | received
  | answered
deriving DecidableEq

structure Entry (α : Type*) where
  stage : Stage
  serial : Nat
  sender : α
  receiver : α
deriving DecidableEq

/-- `mail r` are the parties whose messages `r` has not taken yet, the oldest first,
and `serial s` is the number of the last message of `s`. -/
structure Exchange (α : Type*) where
  phase : α → Phase α
  mail : α → List α
  serial : α → Nat
  clock : Nat
  log : List (Entry α)

/-- The messages between `s` and `r` that are not settled yet, as the log shows them. -/
def Phase.opened (n : Nat) (s : α) : Phase α → List (Entry α)
  | .sending r => [⟨.sent, n, s, r⟩]
  | .replying r => [⟨.sent, n, s, r⟩, ⟨.received, n, s, r⟩]
  | _ => []

/-- Message after message, each one sent, received and answered by the same party. -/
inductive Settled (s : α) : List (Entry α) → Prop
  | nil : Settled s []
  | message {l : List (Entry α)} (n : Nat) (r : α) : Settled s l →
      Settled s (l ++ [⟨.sent, n, s, r⟩, ⟨.received, n, s, r⟩, ⟨.answered, n, s, r⟩])

variable [DecidableEq α]

/-- The numbers of the messages to `r` that reached `stage`, in the order of the log. -/
def serials (stage : Stage) (r : α) (log : List (Entry α)) : List Nat :=
  (log.filter fun x => x.stage = stage ∧ x.receiver = r).map Entry.serial

def account (s : α) (log : List (Entry α)) : List (Entry α) := log.filter fun x => x.sender = s

@[simp] theorem serials_append (stage : Stage) (r : α) (l l' : List (Entry α)) :
    serials stage r (l ++ l') = serials stage r l ++ serials stage r l' := by
  simp [serials]

@[simp] theorem serials_nil (stage : Stage) (r : α) : serials stage r [] = [] := rfl

theorem serials_cons (stage : Stage) (r : α) (x : Entry α) (l : List (Entry α)) :
    serials stage r (x :: l) =
      if x.stage = stage ∧ x.receiver = r then x.serial :: serials stage r l
      else serials stage r l := by
  by_cases h : x.stage = stage ∧ x.receiver = r <;> simp [serials, h]

@[simp] theorem account_append (s : α) (l l' : List (Entry α)) :
    account s (l ++ l') = account s l ++ account s l' := by
  simp [account]

theorem mem_serials {stage : Stage} {r : α} {log : List (Entry α)} {n : Nat}
    (h : n ∈ serials stage r log) : ∃ x ∈ log, x.serial = n := by
  simp only [serials, List.mem_map, List.mem_filter] at h
  obtain ⟨x, ⟨hx, -⟩, rfl⟩ := h
  exact ⟨x, hx, rfl⟩

theorem account_of_sender {s : α} {l : List (Entry α)} (h : ∀ x ∈ l, x.sender = s) :
    account s l = l := by
  rw [account, List.filter_eq_self]
  simpa using h

theorem account_of_ne {s : α} {l : List (Entry α)} (h : ∀ x ∈ l, x.sender ≠ s) :
    account s l = [] := by
  rw [account, List.filter_eq_nil_iff]
  simpa using h

/-- The steps of the protocol; `pass` is anything that has nothing to do with messages. -/
inductive Step (e : Exchange α) : Exchange α → Prop
  | pass : Step e { e with clock := e.clock + 1 }
  | sendFirst {s r : α} (hs : e.phase s = .idle) (hr : e.phase r ≠ .receiving) :
      Step e
        { phase := update e.phase s (.sending r)
          mail := update e.mail r (e.mail r ++ [s])
          serial := update e.serial s e.clock
          clock := e.clock + 1
          log := e.log ++ [⟨.sent, e.clock, s, r⟩] }
  | receiveFirst {s r : α} (hs : e.phase s = .idle) (hr : e.phase r = .receiving) :
      Step e
        { phase := update (update e.phase s (.replying r)) r .idle
          mail := e.mail
          serial := update e.serial s e.clock
          clock := e.clock + 1
          log := e.log ++ [⟨.sent, e.clock, s, r⟩, ⟨.received, e.clock, s, r⟩] }
  | wait {r : α} (hr : e.phase r = .idle) (hMail : e.mail r = []) :
      Step e { e with phase := update e.phase r .receiving, clock := e.clock + 1 }
  | collect {s r : α} {l : List α} (hr : e.phase r = .idle) (hMail : e.mail r = s :: l) :
      Step e
        { phase := update e.phase s (.replying r)
          mail := update e.mail r l
          serial := e.serial
          clock := e.clock + 1
          log := e.log ++ [⟨.received, e.serial s, s, r⟩] }
  | answer {s r : α} (hr : e.phase r = .idle) (hs : e.phase s = .replying r) :
      Step e
        { phase := update e.phase s .idle
          mail := e.mail
          serial := e.serial
          clock := e.clock + 1
          log := e.log ++ [⟨.answered, e.serial s, s, r⟩] }

structure Posted (e : Exchange α) : Prop where
  mem_iff : ∀ s r, s ∈ e.mail r ↔ e.phase s = .sending r
  nodup : ∀ r, (e.mail r).Nodup
  quiet : ∀ r, e.phase r = .receiving → e.mail r = []

/-- What the log says of the messages received, waiting and still to be answered. -/
structure Ledger (e : Exchange α) : Prop where
  fifo : ∀ r, serials .sent r e.log = serials .received r e.log ++ (e.mail r).map e.serial
  settled : ∀ s, ∃ l, Settled s l ∧
    account s e.log = l ++ (e.phase s).opened (e.serial s) s
  old : ∀ x ∈ e.log, x.serial < e.clock
  increasing : ∀ r, (serials .sent r e.log).Pairwise (· < ·)

variable {e e' : Exchange α}

omit [DecidableEq α] in
theorem Posted.not_mem_of_ne (h : Posted e) {s : α} (hs : ∀ r, e.phase s ≠ .sending r) (r : α) :
    s ∉ e.mail r := by
  rw [h.mem_iff]
  exact hs r

theorem Posted.map_serial (h : Posted e) {s : α} (hs : ∀ r, e.phase s ≠ .sending r) (n : Nat)
    (r : α) : (e.mail r).map (update e.serial s n) = (e.mail r).map e.serial := by
  apply List.map_congr_left
  rintro x hx
  apply update_of_ne
  rintro rfl
  exact h.not_mem_of_ne hs r hx

omit [DecidableEq α] in
/-- The mail stays right if nobody begins or ends to send, and nobody waits beside his mail. -/
theorem Posted.of_phase (h : Posted e) (hMail : e'.mail = e.mail)
    (hSending : ∀ s r, e'.phase s = .sending r ↔ e.phase s = .sending r)
    (hQuiet : ∀ r, e'.phase r = .receiving → e.mail r = []) : Posted e' := by
  constructor
  · intro s r
    rw [hMail, hSending]
    exact h.mem_iff s r
  · rw [hMail]
    exact h.nodup
  · rw [hMail]
    exact hQuiet

theorem Posted.sendFirst (h : Posted e) {s r : α} (hs : e.phase s = .idle)
    (hr : e.phase r ≠ .receiving) (hPhase : e'.phase = update e.phase s (.sending r))
    (hMail : e'.mail = update e.mail r (e.mail r ++ [s])) : Posted e' := by
  have hNew : ∀ r', s ∉ e.mail r' := h.not_mem_of_ne (by simp [hs])
  constructor
  · intro x r'
    have hOld := h.mem_iff x r'
    rw [hMail, hPhase]
    by_cases hx : x = s <;> by_cases hr' : r' = r
    · subst hx hr'
      simp
    · subst hx
      simp [hr', hNew, Ne.symm hr']
    · subst hr'
      simpa [hx] using hOld
    · simpa [hx, hr'] using hOld
  · intro r'
    rw [hMail]
    by_cases hr' : r' = r
    · subst hr'
      rw [update_self, List.nodup_append]
      refine ⟨h.nodup r', List.nodup_singleton s, fun a ha b hb => ?_⟩
      rw [List.mem_singleton.mp hb]
      exact ne_of_mem_of_not_mem ha (hNew r')
    · simpa [hr'] using h.nodup r'
  · intro r' hReceiving
    rw [hPhase] at hReceiving
    have hrs : r' ≠ s := by
      rintro rfl
      simp at hReceiving
    replace hReceiving : e.phase r' = .receiving := by simpa [hrs] using hReceiving
    have hNe : r' ≠ r := by
      rintro rfl
      exact hr hReceiving
    rw [hMail, update_of_ne hNe]
    exact h.quiet r' hReceiving

theorem Posted.collect (h : Posted e) {s r : α} {l : List α} (hr : e.phase r = .idle)
    (hFirst : e.mail r = s :: l) (hPhase : e'.phase = update e.phase s (.replying r))
    (hMail : e'.mail = update e.mail r l) : Posted e' := by
  have hs : e.phase s = .sending r := (h.mem_iff s r).mp (by simp [hFirst])
  have hNodup := h.nodup r
  rw [hFirst, List.nodup_cons] at hNodup
  constructor
  · intro x r'
    have hOld := h.mem_iff x r'
    rw [hMail, hPhase]
    by_cases hx : x = s <;> by_cases hr' : r' = r
    · subst hx hr'
      simp [hNodup.1]
    · subst hx
      simpa [hr', hs, Ne.symm hr'] using hOld
    · subst hr'
      simpa [hx, hFirst] using hOld
    · simpa [hx, hr'] using hOld
  · intro r'
    rw [hMail]
    by_cases hr' : r' = r
    · subst hr'
      simpa using hNodup.2
    · simpa [hr'] using h.nodup r'
  · intro r' hReceiving
    rw [hPhase] at hReceiving
    have hNe : r' ≠ s := by
      rintro rfl
      simp at hReceiving
    replace hReceiving : e.phase r' = .receiving := by simpa [hNe] using hReceiving
    have hr' : r' ≠ r := by
      rintro rfl
      simp [hr] at hReceiving
    rw [hMail, update_of_ne hr']
    exact h.quiet r' hReceiving

theorem Posted.step (h : Posted e) (hStep : Step e e') : Posted e' := by
  cases hStep with
  | pass => exact h.of_phase rfl (fun _ _ => Iff.rfl) h.quiet
  | @sendFirst s r hs hr => exact h.sendFirst hs hr rfl rfl
  | @receiveFirst s r hs hr =>
    apply h.of_phase
    · rfl
    · intro x r'
      by_cases hxr : x = r
      · subst hxr
        simp [hr]
      · by_cases hxs : x = s
        · subst hxs
          simp [hs, hxr]
        · simp [hxr, hxs]
    · intro r' hReceiving
      by_cases hr' : r' = r
      · rw [hr']
        exact h.quiet r hr
      · by_cases hs' : r' = s
        · subst hs'
          simp [hr'] at hReceiving
        · exact h.quiet r' (by simpa [hr', hs'] using hReceiving)
  | @wait r hr hMail =>
    apply h.of_phase
    · rfl
    · intro x r'
      by_cases hx : x = r
      · subst hx
        simp [hr]
      · simp [hx]
    · intro r' hReceiving
      by_cases hr' : r' = r
      · rw [hr', hMail]
      · exact h.quiet r' (by simpa [hr'] using hReceiving)
  | @collect s r l hr hMail => exact h.collect hr hMail rfl rfl
  | @answer s r hr hs =>
    apply h.of_phase
    · rfl
    · intro x r'
      by_cases hx : x = s
      · subst hx
        simp [hs]
      · simp [hx]
    · intro r' hReceiving
      have hNe : r' ≠ s := by
        rintro rfl
        simp at hReceiving
      exact h.quiet r' (by simpa [hNe] using hReceiving)

theorem settled_append {phase phase' : α → Phase α} {serial serial' : α → Nat}
    {log new : List (Entry α)} {s : α}
    (h : ∀ x, ∃ l, Settled x l ∧ account x log = l ++ (phase x).opened (serial x) x)
    (hNew : ∀ x ∈ new, x.sender = s)
    (hOther : ∀ x, x ≠ s → (phase' x).opened (serial' x) x = (phase x).opened (serial x) x)
    (hSelf : ∀ l, Settled s l → ∃ l', Settled s l' ∧
      l ++ (phase s).opened (serial s) s ++ new = l' ++ (phase' s).opened (serial' s) s) (x : α) :
    ∃ l, Settled x l ∧ account x (log ++ new) = l ++ (phase' x).opened (serial' x) x := by
  obtain ⟨l, hl, hAccount⟩ := h x
  rw [account_append, hAccount]
  by_cases hx : x = s
  · subst hx
    rw [account_of_sender hNew]
    exact hSelf l hl
  · have hNil : account x new = [] :=
      account_of_ne fun y hy hSender => hx (hSender.symm.trans (hNew y hy))
    rw [hNil, List.append_nil, hOther x hx]
    exact ⟨l, hl, rfl⟩

theorem Ledger.serial_lt (h : Ledger e) {s : α} (hs : (e.phase s).opened (e.serial s) s ≠ []) :
    e.serial s < e.clock := by
  obtain ⟨l, -, hAccount⟩ := h.settled s
  obtain ⟨x, hx⟩ := List.exists_mem_of_ne_nil _ hs
  have hSerial : x.serial = e.serial s := by
    cases hPhase : e.phase s <;> rw [hPhase] at hx <;> simp [Phase.opened] at hx
    · rw [hx]
    · rcases hx with rfl | rfl <;> rfl
  have hMem : x ∈ account s e.log := by
    rw [hAccount]
    exact List.mem_append_right _ hx
  rw [← hSerial]
  exact h.old x (List.mem_of_mem_filter hMem)

omit [DecidableEq α] in
theorem old_append {log new : List (Entry α)} {n : Nat} (h : ∀ x ∈ log, x.serial < n)
    (hNew : ∀ x ∈ new, x.serial ≤ n) : ∀ x ∈ log ++ new, x.serial < n + 1 := by
  intro x hx
  rcases List.mem_append.mp hx with hx | hx
  · exact Nat.lt_succ_of_lt (h x hx)
  · exact Nat.lt_succ_of_le (hNew x hx)

theorem increasing_append {log new : List (Entry α)} {n : Nat} {r : α}
    (h : (serials .sent r log).Pairwise (· < ·)) (hOld : ∀ x ∈ log, x.serial < n)
    (hNew : serials .sent r new = [] ∨ serials .sent r new = [n]) :
    (serials .sent r (log ++ new)).Pairwise (· < ·) := by
  rw [serials_append]
  rcases hNew with hNil | hOne
  · rwa [hNil, List.append_nil]
  · rw [hOne, List.pairwise_append]
    refine ⟨h, List.pairwise_singleton _ _, ?_⟩
    intro m hm n' hn'
    obtain ⟨x, hx, rfl⟩ := mem_serials hm
    rw [List.mem_singleton.mp hn']
    exact hOld x hx

theorem Ledger.step (h : Ledger e) (hPost : Posted e) (hStep : Step e e') : Ledger e' := by
  cases hStep with
  | pass => exact ⟨h.fifo, h.settled, fun x hx => Nat.lt_succ_of_lt (h.old x hx), h.increasing⟩
  | @sendFirst s r hs hr =>
    refine ⟨?_, ?_, old_append h.old (by simp), ?_⟩
    · intro r'
      have hFifo := h.fifo r'
      have hMap := hPost.map_serial (s := s) (by simp [hs]) e.clock r'
      by_cases hr' : r' = r
      · subst hr'
        simp [serials_cons, hFifo, hMap]
      · simp [serials_cons, hFifo, hMap, hr', Ne.symm hr']
    · refine settled_append (s := s) h.settled (by simp) (fun x hx => ?_) fun l hl => ⟨l, hl, ?_⟩
      · simp [hx]
      · simp [hs, Phase.opened]
    · exact fun r' => increasing_append (h.increasing r') h.old (by
        by_cases hr' : r = r' <;> simp [serials_cons, hr'])
  | @receiveFirst s r hs hr =>
    have hsr : s ≠ r := by
      rintro rfl
      simp [hs] at hr
    refine ⟨?_, ?_, old_append h.old (by simp), ?_⟩
    · intro r'
      have hFifo := h.fifo r'
      have hMap := hPost.map_serial (s := s) (by simp [hs]) e.clock r'
      by_cases hr' : r' = r
      · subst hr'
        simp [serials_cons, hFifo, hPost.quiet r' hr]
      · simp [serials_cons, hFifo, hMap, Ne.symm hr']
    · refine settled_append (s := s) h.settled (by simp) (fun x hx => ?_) fun l hl => ⟨l, hl, ?_⟩
      · by_cases hxr : x = r
        · subst hxr
          simp [hr, Phase.opened]
        · simp [hx, hxr]
      · simp [hs, hsr, Phase.opened]
    · exact fun r' => increasing_append (h.increasing r') h.old (by
        by_cases hr' : r = r' <;> simp [serials_cons, hr'])
  | @wait r hr hMail =>
    refine ⟨h.fifo, ?_, fun x hx => Nat.lt_succ_of_lt (h.old x hx), h.increasing⟩
    intro x
    by_cases hx : x = r
    · subst hx
      simpa [hr, Phase.opened] using h.settled x
    · simpa [hx] using h.settled x
  | @collect s r l hr hMail =>
    have hs : e.phase s = .sending r := (hPost.mem_iff s r).mp (by simp [hMail])
    have hLt := h.serial_lt (s := s) (by simp [hs, Phase.opened])
    refine ⟨?_, ?_, old_append h.old (by simp [Nat.le_of_lt hLt]), ?_⟩
    · intro r'
      have hFifo := h.fifo r'
      by_cases hr' : r' = r
      · subst hr'
        simp [serials_cons, hFifo, hMail]
      · simp [serials_cons, hFifo, hr', Ne.symm hr']
    · refine settled_append (s := s) h.settled (by simp) (fun x hx => ?_) fun l hl => ⟨l, hl, ?_⟩
      · simp [hx]
      · simp [hs, Phase.opened]
    · exact fun r' => increasing_append (h.increasing r') h.old (by simp [serials_cons])
  | @answer s r hr hs =>
    have hLt := h.serial_lt (s := s) (by simp [hs, Phase.opened])
    refine ⟨?_, ?_, old_append h.old (by simp [Nat.le_of_lt hLt]), ?_⟩
    · intro r'
      simpa [serials_cons] using h.fifo r'
    · refine settled_append (s := s) h.settled (by simp) (fun x hx => ?_)
        fun l hl => ⟨_, hl.message (e.serial s) r, ?_⟩
      · simp [hx]
      · simp [hs, Phase.opened]
    · exact fun r' => increasing_append (h.increasing r') h.old (by simp [serials_cons])

def Exchange.initial (α : Type*) : Exchange α :=
  ⟨fun _ => .idle, fun _ => [], fun _ => 0, 0, []⟩

inductive Reachable : Exchange α → Prop
  | initial : Reachable (Exchange.initial α)
  | step {e e' : Exchange α} : Reachable e → Step e e' → Reachable e'

theorem Reachable.posted (h : Reachable e) : Posted e := by
  induction h with
  | initial => exact ⟨by simp [Exchange.initial], by simp [Exchange.initial], fun _ _ => rfl⟩
  | step _ hStep ih => exact ih.step hStep

theorem Reachable.ledger (h : Reachable e) : Ledger e := by
  induction h with
  | initial => exact ⟨fun _ => rfl, fun s => ⟨[], .nil, rfl⟩, nofun, fun _ => List.Pairwise.nil⟩
  | step hReach hStep ih => exact ih.step hReach.posted hStep

/-- What has been received was sent before, in the same order and once each. -/
theorem Reachable.received_prefix (h : Reachable e) (r : α) :
    serials .received r e.log <+: serials .sent r e.log :=
  ⟨_, (h.ledger.fifo r).symm⟩

end TrainKernel.Library.Rendezvous
