import Mathlib.Data.List.Find
import TrainKernel.Library.Runs
import TrainKernel.User.Nameserver

/-!
# The table of names

A task that registers is compared with a name at address 0 where its own name was meant. As long
as that comparison fails, each registration adds an entry, and a name is found with the task that
registered under it first.
-/

namespace TrainKernel.User

open Function Library.Runs

def nameserverMachine (matchesNull : (Nat → Registration) → Nat → Bool)
    (registrations : Nat → Registration) : Machine Nameserver NSMessage Int where
  start := initNameserver registrations
  step s m s' reply := nameserver matchesNull s m = .ok (s', reply)

abbrev NSHistory := History NSMessage Int

variable {matchesNull : (Nat → Registration) → Nat → Bool} {registrations : Nat → Registration}
variable {h : NSHistory} {s s' : Nameserver} {m : NSMessage} {reply : Int}

def NSMessage.registered (m : NSMessage) : List (List Byte × Nat) :=
  if m.request.type = registerAs then [(stringAt m.request.name, m.senderTid)] else []

/-- The registrations, the first one first. -/
def NSHistory.registered (h : NSHistory) : List (List Byte × Nat) :=
  h.flatMap (NSMessage.registered ·.1)

def earliest (registered : List (List Byte × Nat)) (name : List Byte) : Option Nat :=
  (registered.find? (·.1 = name)).map Prod.snd

def latest (registered : List (List Byte × Nat)) (name : List Byte) : Option Nat :=
  earliest registered.reverse name

/-- Requests of the right size with names that end, and fewer than 32 registrations. -/
def Proper (h : NSHistory) (_ : Nameserver) (m : NSMessage) : Prop :=
  m.recvSize = sizeofNSRequest ∧ 0 ∈ m.request.name ∧
    (m.request.type = whoIs ∨
      m.request.type = registerAs ∧ h.registered.length + 1 < nsMaxRegistSize)

def answerFor : Option Nat → Int
  | some tid => tid
  | none => nsNoTask

/-- The most recent registration under the name is answered, and no task only if there is none. -/
def AnswersLatest (before : NSHistory) (m : NSMessage) (reply : Int) : Prop :=
  reply = answerFor (latest before.registered (stringAt m.request.name)) ∧
    (reply = nsNoTask ↔ ∀ r ∈ before.registered, r.1 ≠ stringAt m.request.name)

theorem answerFor_inj {a b : Option Nat} : answerFor a = answerFor b ↔ a = b := by
  cases a with
  | none => cases b <;> simp [answerFor, nsNoTask]
  | some tid =>
    cases b with
    | none => simp [answerFor, nsNoTask]
    | some tid' => exact Int.ofNat_inj.trans Option.some_inj.symm

theorem earliest_eq_none_iff {registered : List (List Byte × Nat)} {name : List Byte} :
    earliest registered name = none ↔ ∀ r ∈ registered, r.1 ≠ name := by
  simp [earliest]

theorem answersLatest_iff {before : NSHistory}
    (hReply : reply = answerFor (earliest before.registered (stringAt m.request.name))) :
    AnswersLatest before m reply ↔ latest before.registered (stringAt m.request.name) =
      earliest before.registered (stringAt m.request.name) := by
  rw [AnswersLatest, hReply, answerFor_inj, ← earliest_eq_none_iff]
  have hNone (o : Option Nat) : answerFor o = nsNoTask ↔ o = none := answerFor_inj (b := none)
  rw [hNone]
  exact ⟨fun h => h.1.symm, fun h => ⟨h.symm, Iff.rfl⟩⟩

def Registration.record (r : Registration) : List Byte × Nat := (stringAt r.name, r.tid)

/-- The entries in use are the registrations. -/
structure Records (h : NSHistory) (s : Nameserver) : Prop where
  records : (List.range s.numRegistered).map (fun i => (s.registrations i).record) = h.registered
  terminated : ∀ i < s.numRegistered, 0 ∈ (s.registrations i).name

theorem Records.numRegistered_eq (hRecords : Records h s) :
    s.numRegistered = h.registered.length := by
  rw [← hRecords.records, List.length_map, List.length_range]

theorem Registration.strcmp_iff {r : Registration} {request : NSRequest} (hEntry : 0 ∈ r.name)
    (hName : 0 ∈ request.name) :
    strcmp r.bytes request.bytes = 0 ↔ r.record.1 = stringAt request.name := by
  rw [Registration.bytes, NSRequest.bytes, strcmp_eq_zero_iff (List.mem_append_left _ hEntry)
    (List.mem_append_left _ hName), stringAt_append hEntry, stringAt_append hName]
  rfl

theorem Records.answer (hRecords : Records h s) {request : NSRequest} (hName : 0 ∈ request.name) :
    serveWhoIs s request = answerFor (earliest h.registered (stringAt request.name)) := by
  have hFind : (List.range s.numRegistered).find? (fun i =>
      strcmp (s.registrations i).bytes request.bytes = 0) = (List.range s.numRegistered).find?
        ((fun r : List Byte × Nat => decide (r.1 = stringAt request.name)) ∘
          fun i => (s.registrations i).record) := by
    apply List.find?_congr
    intro i hMem
    have hEntry := hRecords.terminated i (List.mem_range.mp hMem)
    exact decide_eq_decide.mpr (Registration.strcmp_iff hEntry hName)
  rw [serveWhoIs, hFind, earliest, ← hRecords.records, List.find?_map]
  cases (List.range s.numRegistered).find? _ with
  | none => rfl
  | some i => rfl

theorem NSHistory.registered_concat (h : NSHistory) (m : NSMessage) (reply : Int) :
    NSHistory.registered (h ++ [(m, reply)]) = h.registered ++ m.registered := by
  rw [registered, List.flatMap_append, List.flatMap_singleton]
  rfl

/-- If the comparison fails, a registration adds an entry. -/
theorem serveRegisterAs_append {senderTid : Nat} {request : NSRequest}
    (hFind : (List.range s.numRegistered).find? (matchesNull s.registrations) = none)
    (hRoom : s.numRegistered < nsMaxRegistSize) :
    serveRegisterAs matchesNull s senderTid request =
      .ok (⟨update s.registrations s.numRegistered
        ⟨strncpy request.name nsMaxName, senderTid, length_strncpy ..⟩, s.numRegistered + 1⟩,
        nsSuccess) := by
  rw [serveRegisterAs, if_neg (by omega), hFind]
  exact if_pos hRoom

theorem Records.register (hRecords : Records h s) (hName : 0 ∈ m.request.name)
    (hType : m.request.type = registerAs) :
    Records (h ++ [(m, reply)]) ⟨update s.registrations s.numRegistered
      ⟨strncpy m.request.name nsMaxName, m.senderTid, length_strncpy ..⟩, s.numRegistered + 1⟩ := by
  obtain ⟨hCopied, hString⟩ := strncpy_string hName
  rw [m.request.length_name] at hCopied hString
  constructor
  · rw [NSHistory.registered_concat, NSMessage.registered, if_pos hType, ← hRecords.records]
    dsimp only
    rw [List.range_succ, List.map_append, List.map_singleton, update_self, Registration.record,
      hString]
    congr 1
    apply List.map_congr_left
    intro i hMem
    have hOther : i ≠ s.numRegistered := (List.mem_range.mp hMem).ne
    exact congrArg Registration.record (update_of_ne hOther ..)
  · intro i hLess
    dsimp only at hLess ⊢
    cases Nat.lt_succ_iff_lt_or_eq.mp hLess with
    | inl hEarlier =>
      rw [update_of_ne hEarlier.ne]
      exact hRecords.terminated i hEarlier
    | inr hLast =>
      rw [hLast, update_self]
      exact hCopied

theorem Records.keep (hRecords : Records h s) (hType : m.request.type ≠ registerAs) :
    Records (h ++ [(m, reply)]) s := by
  refine ⟨?_, hRecords.terminated⟩
  rw [NSHistory.registered_concat, NSMessage.registered, if_neg hType, List.append_nil]
  exact hRecords.records

theorem Records.serve (hRecords : Records h s)
    (hNull : ∀ registrations i, matchesNull registrations i = false) (hProper : Proper h s m) :
    ∃ s' reply, nameserver matchesNull s m = .ok (s', reply) ∧ Records (h ++ [(m, reply)]) s' ∧
      (m.request.type = whoIs →
        reply = answerFor (earliest h.registered (stringAt m.request.name))) := by
  obtain ⟨hSize, hName, hType⟩ := hProper
  rw [nameserver, if_neg (not_not.mpr hSize)]
  cases hType with
  | inl hWhoIs =>
    have hOther : m.request.type ≠ registerAs := hWhoIs ▸ (by decide)
    rw [if_neg hOther, if_pos hWhoIs]
    exact ⟨s, _, rfl, hRecords.keep hOther, fun _ => hRecords.answer hName⟩
  | inr hRegisters =>
    obtain ⟨hRegister, hFew⟩ := hRegisters
    have hFind : (List.range s.numRegistered).find? (matchesNull s.registrations) = none := by
      rw [List.find?_eq_none]
      intro i _
      rw [hNull]
      exact Bool.false_ne_true
    have hRoom : s.numRegistered < nsMaxRegistSize := by
      rw [hRecords.numRegistered_eq]
      exact Nat.lt_of_succ_lt hFew
    rw [if_pos hRegister, serveRegisterAs_append hFind hRoom]
    have hOther : m.request.type ≠ whoIs := hRegister ▸ (by decide)
    exact ⟨_, _, rfl, hRecords.register hName hRegister, fun hWhoIs => absurd hWhoIs hOther⟩

theorem records_of_run (hNull : ∀ registrations i, matchesNull registrations i = false)
    (hRun : (nameserverMachine matchesNull registrations).Run Proper h s) : Records h s := by
  apply hRun.invariant Records
  · constructor
    · rfl
    · intro i hLess
      cases hLess
  · intro h s m s' reply hRecords hProper hStep
    obtain ⟨s₁, reply', hServe, hNext, -⟩ := hRecords.serve hNull hProper
    obtain ⟨rfl, rfl⟩ := Prod.mk.inj (Except.ok.inj (hServe.symm.trans hStep))
    exact hNext

/-- A name is answered with its latest registration just when that is by the same task as the
earliest. -/
theorem whoIs_latest_iff (hNull : ∀ registrations i, matchesNull registrations i = false)
    (hRun : (nameserverMachine matchesNull registrations).Run Proper h s) :
    ((∀ (before : NSHistory) m reply, before ++ [(m, reply)] <+: h → m.request.type = whoIs →
        AnswersLatest before m reply) ↔
      ∀ (before : NSHistory) m reply, before ++ [(m, reply)] <+: h → m.request.type = whoIs →
        latest before.registered (stringAt m.request.name) =
          earliest before.registered (stringAt m.request.name)) ∧
      ∀ m, Proper h s m →
        ∃ s' reply, (nameserverMachine matchesNull registrations).step s m s' reply := by
  have hAnswers (before : NSHistory) (m : NSMessage) (reply : Int)
      (hBefore : before ++ [(m, reply)] <+: h) (hWhoIs : m.request.type = whoIs) :
      AnswersLatest before m reply ↔ latest before.registered (stringAt m.request.name) =
        earliest before.registered (stringAt m.request.name) := by
    obtain ⟨s₁, s₂, hEarlier, hProper, hStep⟩ := hRun.split hBefore
    obtain ⟨s₂', reply', hServe, -, hReply⟩ :=
      (records_of_run hNull hEarlier).serve hNull hProper
    obtain ⟨rfl, rfl⟩ := Prod.mk.inj (Except.ok.inj (hServe.symm.trans hStep))
    exact answersLatest_iff (hReply hWhoIs)
  constructor
  · constructor
    · intro hRight before m reply hBefore hWhoIs
      exact (hAnswers before m reply hBefore hWhoIs).mp (hRight before m reply hBefore hWhoIs)
    · intro hSame before m reply hBefore hWhoIs
      exact (hAnswers before m reply hBefore hWhoIs).mpr (hSame before m reply hBefore hWhoIs)
  · intro m hProper
    obtain ⟨s', reply, hServe, -⟩ := (records_of_run hNull hRun).serve hNull hProper
    exact ⟨s', reply, hServe⟩

def oneCharName (c : Byte) (type : BitVec 32) : NSRequest := ⟨c :: List.replicate 31 0, type, rfl⟩

/-- Tasks 1 and 2 register under one name, and task 3 asks for it. -/
def reRegistered : NSHistory :=
  [(⟨1, 36, oneCharName 110 registerAs⟩, 0), (⟨2, 36, oneCharName 110 registerAs⟩, 0),
    (⟨3, 36, oneCharName 110 whoIs⟩, 1)]

theorem re_registered_run : ∃ s, (nameserverMachine (fun _ _ => false)
    fun _ => ⟨List.replicate 32 0, 0, rfl⟩).Run Proper reRegistered s := by
  have hStart := @Machine.Run.start _ _ _ (nameserverMachine (fun _ _ => false)
    fun _ => ⟨List.replicate 32 0, 0, rfl⟩) Proper
  have hFirst := hStart.next (i := NSMessage.mk 1 36 (oneCharName 110 registerAs)) (o := 0)
    ⟨rfl, by decide, Or.inr ⟨rfl, by decide⟩⟩ rfl
  have hSecond := hFirst.next (i := NSMessage.mk 2 36 (oneCharName 110 registerAs)) (o := 0)
    ⟨rfl, by decide, Or.inr ⟨rfl, by decide⟩⟩ rfl
  exact ⟨_, hSecond.next (i := NSMessage.mk 3 36 (oneCharName 110 whoIs)) (o := 1)
    ⟨rfl, by decide, Or.inl rfl⟩ rfl⟩

theorem whoIs_latest_iff_re_registered :
    (∀ (before : NSHistory) m reply, before ++ [(m, reply)] <+: reRegistered →
      m.request.type = whoIs → AnswersLatest before m reply) ↔
    ∀ (before : NSHistory) m reply, before ++ [(m, reply)] <+: reRegistered →
      m.request.type = whoIs → latest before.registered (stringAt m.request.name) =
        earliest before.registered (stringAt m.request.name) := by
  obtain ⟨s, hRun⟩ := re_registered_run
  exact (whoIs_latest_iff (fun _ _ => rfl) hRun).1

/-- A name that tasks 1 and 2 register under stays with task 1. -/
theorem whoIs_outdated : ¬∀ (h : NSHistory) (s : Nameserver), (nameserverMachine (fun _ _ => false)
    fun _ => ⟨List.replicate 32 0, 0, rfl⟩).Run Proper h s →
      ∀ (before : NSHistory) m reply, before ++ [(m, reply)] <+: h → m.request.type = whoIs →
        AnswersLatest before m reply := by
  intro hRight
  obtain ⟨s, hRun⟩ := re_registered_run
  have hLatest := (hRight _ s hRun [_, _] _ _ List.prefix_rfl rfl).1
  exact absurd hLatest (by decide)

def NSMessage.Registers (m : NSMessage) : Prop :=
  m.recvSize = sizeofNSRequest ∧ m.request.type = registerAs

def Nameserver.Knows (s : Nameserver) (request : NSRequest) : Prop :=
  ∃ i < s.numRegistered, strcmp (s.registrations i).bytes request.bytes = 0

/-- No entry outside the table is written or counted, and a full one takes no new name. -/
structure KeepsBound (matchesNull : (Nat → Registration) → Nat → Bool) (s : Nameserver)
    (m : NSMessage) : Prop where
  inBounds : nameserver matchesNull s m ≠ .error .outOfBounds
  counted : ∀ s' reply, nameserver matchesNull s m = .ok (s', reply) →
    s'.numRegistered ≤ nsMaxRegistSize
  full : s.numRegistered = nsMaxRegistSize → m.Registers → ¬s.Knows m.request →
    nameserver matchesNull s m = .ok (s, nsFull)

/-- When the table is full, only known names are registered, and the comparison finds an entry. -/
def FindsRoom (matchesNull : (Nat → Registration) → Nat → Bool) (s : Nameserver)
    (m : NSMessage) : Prop :=
  s.numRegistered = nsMaxRegistSize → m.Registers →
    s.Knows m.request ∧ ∃ i < nsMaxRegistSize, matchesNull s.registrations i

theorem serveRegisterAs_some {i senderTid : Nat} {request : NSRequest}
    (hBound : s.numRegistered ≤ nsMaxRegistSize)
    (hFind : (List.range s.numRegistered).find? (matchesNull s.registrations) = some i) :
    serveRegisterAs matchesNull s senderTid request =
      .ok (⟨update s.registrations i { s.registrations i with tid := senderTid },
        s.numRegistered⟩, nsSuccess) := by
  rw [serveRegisterAs, if_neg (by omega), hFind]

theorem serveRegisterAs_full {senderTid : Nat} {request : NSRequest}
    (hFull : s.numRegistered = nsMaxRegistSize)
    (hFind : (List.range s.numRegistered).find? (matchesNull s.registrations) = none) :
    serveRegisterAs matchesNull s senderTid request = .error .outOfBounds := by
  rw [serveRegisterAs, if_neg (by omega), hFind]
  exact if_neg (by omega)

theorem nameserver_registers (matchesNull : (Nat → Registration) → Nat → Bool) (s : Nameserver)
    (hRegisters : m.Registers) :
    nameserver matchesNull s m = serveRegisterAs matchesNull s m.senderTid m.request := by
  rw [nameserver, if_neg (not_not.mpr hRegisters.1), if_pos hRegisters.2]

/-- Only a registration touches the table. -/
theorem nameserver_reads (matchesNull : (Nat → Registration) → Nat → Bool) (s : Nameserver)
    (hReads : ¬m.Registers) :
    nameserver matchesNull s m = .error .badRequest ∨
      ∃ reply, nameserver matchesNull s m = .ok (s, reply) := by
  rw [nameserver]
  split_ifs with hSize hRegister hWhoIs
  · exact Or.inr ⟨_, rfl⟩
  · exact absurd ⟨not_not.mp hSize, hRegister⟩ hReads
  · exact Or.inr ⟨_, rfl⟩
  · exact Or.inl rfl

theorem numRegistered_step (hBound : s.numRegistered ≤ nsMaxRegistSize)
    (hServe : nameserver matchesNull s m = .ok (s', reply)) :
    s'.numRegistered ≤ nsMaxRegistSize := by
  by_cases hRegisters : m.Registers
  · rw [nameserver_registers matchesNull s hRegisters] at hServe
    cases hFind : (List.range s.numRegistered).find? (matchesNull s.registrations) with
    | some i =>
      rw [serveRegisterAs_some hBound hFind] at hServe
      obtain ⟨rfl, -⟩ := Prod.mk.inj (Except.ok.inj hServe)
      exact hBound
    | none =>
      cases hBound.eq_or_lt with
      | inl hFull =>
        rw [serveRegisterAs_full hFull hFind] at hServe
        cases hServe
      | inr hLess =>
        rw [serveRegisterAs_append hFind hLess] at hServe
        obtain ⟨rfl, -⟩ := Prod.mk.inj (Except.ok.inj hServe)
        exact hLess
  · cases nameserver_reads matchesNull s hRegisters with
    | inl hFault => cases hFault.symm.trans hServe
    | inr hReply =>
      obtain ⟨answer, hAnswer⟩ := hReply
      obtain ⟨rfl, -⟩ := Prod.mk.inj (Except.ok.inj (hAnswer.symm.trans hServe))
      exact hBound

theorem inBounds_of_findsRoom (hBound : s.numRegistered ≤ nsMaxRegistSize)
    (hRoom : FindsRoom matchesNull s m) : nameserver matchesNull s m ≠ .error .outOfBounds := by
  intro hFault
  by_cases hRegisters : m.Registers
  · rw [nameserver_registers matchesNull s hRegisters] at hFault
    cases hFind : (List.range s.numRegistered).find? (matchesNull s.registrations) with
    | some i => cases (serveRegisterAs_some hBound hFind).symm.trans hFault
    | none =>
      cases hBound.eq_or_lt with
      | inl hFull =>
        obtain ⟨-, i, hi, hMatch⟩ := hRoom hFull hRegisters
        exact List.find?_eq_none.mp hFind i (List.mem_range.mpr (hFull ▸ hi)) hMatch
      | inr hLess => cases (serveRegisterAs_append hFind hLess).symm.trans hFault
  · cases nameserver_reads matchesNull s hRegisters with
    | inl hBad => cases hBad.symm.trans hFault
    | inr hReply =>
      obtain ⟨answer, hAnswer⟩ := hReply
      cases hAnswer.symm.trans hFault

theorem findsRoom_of_keepsBound (hKeeps : KeepsBound matchesNull s m) :
    FindsRoom matchesNull s m := by
  intro hFull hRegisters
  have hServe := nameserver_registers matchesNull s hRegisters
  cases hFind : (List.range s.numRegistered).find? (matchesNull s.registrations) with
  | none =>
    rw [serveRegisterAs_full hFull hFind] at hServe
    exact absurd hServe hKeeps.inBounds
  | some i =>
    rw [serveRegisterAs_some hFull.le hFind] at hServe
    have hi := List.mem_range.mp (List.mem_of_find?_eq_some hFind)
    refine ⟨?_, i, hFull ▸ hi, List.find?_some hFind⟩
    by_contra hNew
    obtain ⟨-, hReply⟩ :=
      Prod.mk.inj (Except.ok.inj (hServe.symm.trans (hKeeps.full hFull hRegisters hNew)))
    exact absurd hReply (by decide)

def AnyRequest (_ : NSHistory) (_ : Nameserver) (_ : NSMessage) : Prop := True

theorem numRegistered_le
    (hRun : (nameserverMachine matchesNull registrations).Run AnyRequest h s) :
    s.numRegistered ≤ nsMaxRegistSize :=
  hRun.invariant (fun _ s => s.numRegistered ≤ nsMaxRegistSize) (Nat.zero_le _)
    fun _ _ _ _ _ hBound _ hStep => numRegistered_step hBound hStep

/-- Over every sequence of messages the table keeps its bound just when nothing is registered in a
full one but known names for which the comparison finds an entry. -/
theorem name_table_bound_iff (messages : List NSMessage) :
    (∀ (h : NSHistory) s m, (nameserverMachine matchesNull registrations).Run AnyRequest h s →
      h.map Prod.fst ++ [m] <+: messages → KeepsBound matchesNull s m) ↔
    ∀ (h : NSHistory) s m, (nameserverMachine matchesNull registrations).Run AnyRequest h s →
      h.map Prod.fst ++ [m] <+: messages → FindsRoom matchesNull s m := by
  constructor
  · intro hKeeps h s m hRun hNext
    exact findsRoom_of_keepsBound (hKeeps h s m hRun hNext)
  · intro hRoom h s m hRun hNext
    have hBound := numRegistered_le hRun
    have hFinds := hRoom h s m hRun hNext
    constructor
    · exact inBounds_of_findsRoom hBound hFinds
    · intro s' reply hServe
      exact numRegistered_step hBound hServe
    · intro hFull hRegisters hNew
      exact absurd (hFinds hFull hRegisters).1 hNew

def nthRegistration (i : Nat) : NSMessage :=
  ⟨1, 36, oneCharName (BitVec.ofNat 8 (i + 1)) registerAs⟩

theorem filling_run {n : Nat} (hn : n ≤ nsMaxRegistSize) : ∃ (h : NSHistory) (s : Nameserver),
    (nameserverMachine (fun _ _ => false) registrations).Run AnyRequest h s ∧
      h.map Prod.fst = (List.range n).map nthRegistration ∧ s.numRegistered = n := by
  induction n with
  | zero => exact ⟨[], _, .start, rfl, rfl⟩
  | succ n ih =>
    obtain ⟨h, s, hRun, hMessages, hCount⟩ := ih (Nat.le_of_succ_le hn)
    have hServe := (nameserver_registers (m := nthRegistration n) (fun _ _ => false) s
      ⟨rfl, rfl⟩).trans (serveRegisterAs_append (List.find?_eq_none.mpr (by simp)) (hCount ▸ hn))
    refine ⟨_, _, hRun.next trivial hServe, ?_, congrArg (· + 1) hCount⟩
    rw [List.map_append, hMessages, List.range_succ, List.map_append]
    rfl

/-- The name that comes after 32 others is written behind the table. -/
theorem name_table_overrun : ¬∀ (h : NSHistory) s m, (nameserverMachine (fun _ _ => false)
    fun _ => ⟨List.replicate 32 0, 0, rfl⟩).Run AnyRequest h s →
      h.map Prod.fst ++ [m] <+: (List.range 33).map nthRegistration →
        KeepsBound (fun _ _ => false) s m := by
  intro hKeeps
  obtain ⟨h, s, hRun, hMessages, hFull⟩ := filling_run (n := 32) le_rfl
  have hLast : h.map Prod.fst ++ [nthRegistration 32] <+: (List.range 33).map nthRegistration := by
    rw [hMessages, List.range_succ (n := 32), List.map_append]
    exact List.prefix_rfl
  apply (hKeeps h s (nthRegistration 32) hRun hLast).inBounds
  rw [nameserver_registers _ _ ⟨rfl, rfl⟩]
  exact serveRegisterAs_full hFull (List.find?_eq_none.mpr (by simp))

end TrainKernel.User
