import XbowPerso.RunnerSessions
import XbowPerso.Theorems.PlanAgreement

/-!
# Preparation tickets

A ticket is verified at one reading of the clock and looked up in the journal at a later one. When the second reading has reached
the ticket's expiry, the journal has just deleted the row that would have shown the ticket to be used, and after a restart nothing
else remembers it. In a run where a ticket that is presented again is looked up before it expires, no ticket leads to two sessions.
-/

namespace XbowPerso

namespace RunnerRpc

open ManifestTicket (Ticket)

variable {crypto : Crypto} {cfg : Config}

/-! ## Runs -/

/-- The ticket that an event presents, and the reading at which the journal is consulted for it. -/
def Event.ticket : Event → Option Ticket
  | .request (.prepare r) _ => some r.admission
  | _ => none

def Event.journalReading : Event → Option ℚ
  | .request (.prepare _) c => c.wallAtJournal
  | _ => none

/-- The session that an event prepares with a ticket. -/
def sessionOf (t : Ticket) (x : Event × Reply) : Option String :=
  match x.2 with
  | .prepared sessionId _ _ _ => if x.1.ticket = some t then some sessionId else none
  | _ => none

/-- The sessions that a run prepares with a ticket. -/
def sessionsOf (t : Ticket) (xs : List (Event × Reply)) : List String := xs.filterMap (sessionOf t)

/-- The readings of the wall clock under the lock never go back. -/
def ChronologicalRun (run : List Event) : Prop := (run.filterMap Event.journalReading).Pairwise (· ≤ ·)

/-- The event has its ticket looked up in the journal at the second reading of the clock: the first one is before the ticket's
expiry, and the process does not remember the ticket. -/
structure LooksUp (s : State) (e : Event) (t : Ticket) (w : ℚ) : Prop where
  ticket : e.ticket = some t
  reading : e.journalReading = some w
  inTime : ∃ op c v, e = .request op c ∧ c.wall = some v ∧ v < t.expiresAt
  forgotten : ∃ op c now, e = .request op c ∧ c.monotonic = some now ∧ ticketId t ∉ (s.memory.prune now).tickets.keys

/-- A ticket that was presented before is not looked up at a reading that has reached its expiry. -/
def LookedUpInTime (crypto : Crypto) (cfg : Config) (seen : List Ticket) (s : State) : List Event → Prop
  | [] => True
  | e :: es =>
    (∀ t w, t ∈ seen → LooksUp s e t w → truncate w < t.expiresAt) ∧
      LookedUpInTime crypto cfg (e.ticket.toList ++ seen) (e.apply crypto cfg s).2 es

/-! ## One event -/

theorem truncate_mono {a b : ℚ} (h : a ≤ b) : truncate a ≤ truncate b := by
  unfold truncate
  split
  · rename_i ha
    rw [if_pos (ha.trans h)]
    exact Int.floor_le_floor h
  · rename_i ha
    split
    · rename_i hb
      have hceil : ⌈a⌉ ≤ 0 := Int.ceil_le.mpr (by exact_mod_cast (not_le.mp ha).le)
      exact hceil.trans (Int.floor_nonneg.mpr hb)
    · exact Int.ceil_le_ceil h

/-- The journal holds the row of the ticket. -/
def Consumed (t : Ticket) (j : Journal) : Prop := j.get? (ticketId t) = some t.expiresAt

theorem get?_purge (j : Journal) (now : Int) (k : String × String) :
    (j.purge now).get? k = (j.get? k).filter (fun e => decide (now < e)) := Dict.get?_filter _

variable {t : Ticket} {j : Journal} {now : Int}

/-- A row stays when the journal is consulted before it expires. -/
theorem Consumed.consume (h : Consumed t j) {k : String × String} {e : Int}
    (hnow : now < t.expiresAt) : Consumed t (j.consume k e now).2 := by
  have hkept : Consumed t (j.purge now) := by
    rw [Consumed, get?_purge, h]
    simp [hnow]
  unfold Journal.consume
  dsimp only
  split
  · exact hkept
  split
  · exact hkept
  · exact Dict.mem_entries.mp (List.mem_append_left _ (Dict.mem_entries.mpr hkept))

/-- And then the ticket counts as used. -/
theorem Consumed.replayed (h : Consumed t j) {e : Int} (hnow : now < t.expiresAt) :
    (j.consume (ticketId t) e now).1 = .replayed := by
  have hkept : (j.purge now).get? (ticketId t) = some t.expiresAt := by
    rw [get?_purge, h]
    simp [hnow]
  have hkey : ticketId t ∈ (j.purge now).keys := Dict.mem_keys.mpr ⟨_, Dict.mem_entries.mpr hkept⟩
  rw [Journal.consume, dif_pos hkey]

/-- A ticket that is consumed has its row. -/
theorem consumed_of_consume
    (h : (j.consume (ticketId t) t.expiresAt now).1 = .consumed) : Consumed t (j.consume (ticketId t) t.expiresAt now).2 := by
  unfold Journal.consume at h ⊢
  dsimp only at h ⊢
  split at h
  · cases h
  split at h
  · cases h
  rename_i hkey hsize
  rw [dif_neg hkey, if_neg hsize]
  exact Dict.mem_entries.mp (List.mem_append_right _ List.mem_cons_self)

/-- What a handler does to the journal: nothing, or it consults it for the ticket of a request. Only then a session is prepared with
the ticket, and only when it was not used. -/
structure JournalStep (e : Event) (s : State) (result : Reply × State) : Prop where
  journal : result.2.journal = s.journal ∨ ∃ k x w, e.journalReading = some w ∧
    result.2.journal = (s.journal.consume k x (truncate w)).2
  prepared : ∀ t id, sessionOf t (e, result.1) = some id → ∃ w, LooksUp s e t w ∧
    (s.journal.consume (ticketId t) t.expiresAt (truncate w)).1 = .consumed ∧
    result.2.journal = (s.journal.consume (ticketId t) t.expiresAt (truncate w)).2

theorem admitTicket_journal (s : State) (r : PrepareRequest) {now v : ℚ} {c : Circumstances} (hnow : c.monotonic = some now)
    (hv : c.wall = some v) (hlt : v < r.admission.expiresAt) :
    JournalStep (.request (.prepare r) c) s (admitTicket s r.admission now c) := by
  unfold admitTicket
  dsimp only
  split
  · exact ⟨.inl rfl, by simp [sessionOf]⟩
  rename_i hforgotten
  split
  · exact ⟨.inl rfl, by simp [sessionOf]⟩
  split
  · exact ⟨.inl rfl, by simp [sessionOf]⟩
  split
  · exact ⟨.inl rfl, by simp [sessionOf]⟩
  rename_i w hw
  split
  · exact ⟨.inl rfl, by simp [sessionOf]⟩
  have hreading : (Event.request (.prepare r) c).journalReading = some w := hw
  obtain ⟨⟨outcome, j⟩, hconsume⟩ : ∃ x, s.journal.consume (ticketId r.admission) r.admission.expiresAt (truncate w) = x := ⟨_, rfl⟩
  have hj : j = (s.journal.consume (ticketId r.admission) r.admission.expiresAt (truncate w)).2 := by rw [hconsume]
  rw [hconsume]
  cases outcome with
  | replayed => exact ⟨.inr ⟨_, _, w, hreading, hj⟩, by simp [sessionOf]⟩
  | capacity => exact ⟨.inr ⟨_, _, w, hreading, hj⟩, by simp [sessionOf]⟩
  | consumed =>
    dsimp only
    split
    · exact ⟨.inr ⟨_, _, w, hreading, hj⟩, by simp [sessionOf]⟩
    · refine ⟨.inr ⟨_, _, w, hreading, hj⟩, fun t id h => ?_⟩
      have ht : r.admission = t := by
        by_contra hne
        simp [sessionOf, Event.ticket, hne] at h
      subst ht
      refine ⟨w, ⟨rfl, hreading, ⟨_, c, v, rfl, hv, hlt⟩, ⟨_, c, now, rfl, hnow, hforgotten⟩⟩, ?_⟩
      rw [hconsume]
      exact ⟨rfl, rfl⟩

/-- A ticket that passes its check is not expired at the first reading. -/
theorem lt_expiresAt_of_ticketError {hmac : HmacSha256} {secret : ManifestTicket.Secret}
    {p : ManifestTicket.Presented} {now : Option ℚ} (h : ManifestTicket.ticketError hmac secret t p now = none) :
    ∃ v, now = some v ∧ v < t.expiresAt := by
  unfold ManifestTicket.ticketError at h
  split at h
  · cases h
  split at h
  · cases h
  split at h
  · cases h
  split at h
  · cases h
  split at h
  · cases h
  split at h
  · cases h
  split at h
  · cases h
  split at h
  · cases h
  split at h
  · cases h
  rename_i v hv
  split at h
  · cases h
  rename_i htimes
  refine ⟨v, (Option.filter_eq_some_iff.mp hv).1, ?_⟩
  unfold ManifestTicket.timesError at htimes
  split at htimes
  · cases htimes
  split at htimes
  · cases htimes
  split at htimes
  · cases htimes
  rename_i hle
  exact not_le.mp hle

/-- The handlers that work under the lock alone leave the journal as it is. -/
theorem underLock_journal (s : State) (c : Circumstances) (body : ℚ → Memory → Reply × Memory) :
    (underLock cfg s c body).2.journal = s.journal := by
  unfold underLock
  split
  · rfl
  · split <;> rfl

/-- What an event does to the journal. -/
theorem apply_journal (e : Event) (s : State) : JournalStep e s (e.apply crypto cfg s) := by
  cases e with
  | restart => exact ⟨.inl rfl, by simp [sessionOf, Event.apply]⟩
  | request op c =>
    have hquiet : ∀ result : Reply × State, result.2.journal = s.journal →
        (Event.request op c).ticket = none → JournalStep (.request op c) s result := by
      intro result hjournal hticket
      refine ⟨.inl hjournal, fun t id h => ?_⟩
      unfold sessionOf at h
      split at h
      · simp [hticket] at h
      · cases h
    show JournalStep _ s (handle crypto cfg s op c)
    unfold handle
    split
    · exact ⟨.inl rfl, by simp [sessionOf]⟩
    cases op with
    | prepare r =>
      show JournalStep _ s (prepareSession crypto cfg s r c)
      unfold prepareSession
      split
      · exact ⟨.inl rfl, by simp [sessionOf]⟩
      split
      · exact ⟨.inl rfl, by simp [sessionOf]⟩
      split
      · exact ⟨.inl rfl, by simp [sessionOf]⟩
      split
      · exact ⟨.inl rfl, by simp [sessionOf]⟩
      · exact ⟨.inl rfl, by simp [sessionOf]⟩
      rename_i hticket
      obtain ⟨v, hv, hlt⟩ := lt_expiresAt_of_ticketError hticket
      split
      · exact ⟨.inl rfl, by simp [sessionOf]⟩
      · rename_i now hnow
        exact admitTicket_journal s r hnow hv hlt
    | preparationStatus => exact hquiet _ (underLock_journal s c _) rfl
    | planReceipt => exact hquiet _ (underLock_journal s c _) rfl
    | verificationStatus => exact hquiet _ (underLock_journal s c _) rfl
    | fileChunk => exact hquiet _ (underLock_journal s c _) rfl
    | release => exact hquiet _ (underLock_journal s c _) rfl
    | releaseStatus => exact hquiet _ (underLock_journal s c _) rfl

/-! ## The run -/

/-- A ticket is used up: the journal has its row, or will be consulted at or after the ticket's expiry only. -/
def Spent (t : Ticket) (s : State) (later : List Event) : Prop :=
  Consumed t s.journal ∨ ∀ e ∈ later, ∀ w, e.journalReading = some w → t.expiresAt ≤ truncate w

variable {s : State} {run : List Event}

/-- It stays so. -/
theorem Spent.apply {e : Event} (h : Spent t s (e :: run))
    (hclock : ChronologicalRun (e :: run)) : Spent t (e.apply crypto cfg s).2 run := by
  rcases h with h | h
  · rcases (apply_journal e s).journal with hsame | ⟨k, x, w, hw, hj⟩
    · exact .inl (by rwa [hsame])
    · by_cases hlt : truncate w < t.expiresAt
      · rw [Spent, hj]
        exact .inl (h.consume hlt)
      · refine .inr fun e' he' w' hw' => ?_
        rw [ChronologicalRun, List.filterMap_cons, hw] at hclock
        have hle := (List.pairwise_cons.mp hclock).1 w' (List.mem_filterMap.mpr ⟨e', he', hw'⟩)
        exact (not_lt.mp hlt).trans (truncate_mono hle)
  · exact .inr fun e' he' => h e' (List.mem_cons_of_mem e he')

/-- A spent ticket that is not looked up at or after its expiry prepares no session. -/
theorem Spent.sessionOf_eq_none {e : Event} (h : Spent t s (e :: run))
    (hintime : ∀ w, LooksUp s e t w → truncate w < t.expiresAt) : sessionOf t (e, (e.apply crypto cfg s).1) = none := by
  cases hs : sessionOf t (e, (e.apply crypto cfg s).1) with
  | none => rfl
  | some id =>
    obtain ⟨w, hw, hconsumed, -⟩ := (apply_journal e s).prepared t id hs
    have hlt := hintime w hw
    rcases h with h | h
    · have hreplayed := h.replayed (e := t.expiresAt) hlt
      rw [hconsumed] at hreplayed
      cases hreplayed
    · exact absurd (h e List.mem_cons_self w hw.reading) (not_le.mpr hlt)

/-- After a ticket is spent, a run in which it is looked up in time prepares no session with it. -/
theorem sessionsOf_of_spent {seen : List Ticket} (h : Spent t s run)
    (hclock : ChronologicalRun run) (hseen : t ∈ seen) (hintime : LookedUpInTime crypto cfg seen s run) :
    sessionsOf t (replies crypto cfg s run) = [] := by
  induction run generalizing s seen with
  | nil => rfl
  | cons e run ih =>
    obtain ⟨hhead, htail⟩ := hintime
    have hclock' : ChronologicalRun run := hclock.sublist ((List.sublist_cons_self e run).filterMap _)
    rw [replies, sessionsOf, List.filterMap_cons, h.sessionOf_eq_none fun w hw => hhead t w hseen hw]
    exact ih (h.apply hclock) hclock' (List.mem_append_right _ hseen) htail

/-- In a run where no ticket that was presented before is looked up at or after its expiry, no ticket leads to two sessions. -/
theorem ticket_prepares_once (crypto : Crypto) (cfg : Config) (s : State) (run : List Event) (hclock : ChronologicalRun run)
    (hintime : LookedUpInTime crypto cfg [] s run) (t : Ticket) :
    (sessionsOf t (replies crypto cfg s run)).length ≤ 1 := by
  have hgeneral : ∀ (run : List Event) (seen : List Ticket) (s : State), ChronologicalRun run →
      LookedUpInTime crypto cfg seen s run → (sessionsOf t (replies crypto cfg s run)).length ≤ 1 := by
    intro run
    induction run with
    | nil => exact fun _ _ _ _ => Nat.zero_le 1
    | cons e run ih =>
      intro seen s hclock hintime
      have hclock' : ChronologicalRun run := hclock.sublist ((List.sublist_cons_self e run).filterMap _)
      rw [replies, sessionsOf, List.filterMap_cons]
      cases hs : sessionOf t (e, (e.apply crypto cfg s).1) with
      | none => exact ih _ _ hclock' hintime.2
      | some id =>
        obtain ⟨w, hw, hconsumed, hj⟩ := (apply_journal e s).prepared t id hs
        have hspent : Spent t (e.apply crypto cfg s).2 run := by
          rw [Spent, hj]
          exact .inl (consumed_of_consume hconsumed)
        have hseen : t ∈ e.ticket.toList ++ seen := by
          rw [hw.ticket]
          exact List.mem_append_left _ (List.mem_singleton_self t)
        have hnone := sessionsOf_of_spent hspent hclock' hseen hintime.2
        rw [sessionsOf] at hnone
        dsimp only
        rw [List.length_cons, hnone, List.length_nil]
  exact hgeneral run [] s hclock hintime

/-! ## At a ticket that is presented again after a restart -/

def sampleCrypto : Crypto where
  sha := ManifestAdmission.sampleSha
  hmac := ⟨fun _ _ => ManifestAdmission.sampleSha.hex [], fun _ _ => ManifestAdmission.sampleSha.hex_valid []⟩

/-- A runner in inert mode. -/
def sampleConfig : Config := ⟨false, some ⟨"manifest-admission-secret-of-the-runner", by decide +kernel, by decide +kernel⟩, true⟩

/-- The ticket of an empty manifest, issued at second 100 for 120 seconds. -/
def sampleTicket : Ticket where
  schema := ManifestTicket.ticketSchema
  descriptor := {
    schema := ManifestAdmission.schema
    contractHash := sampleCrypto.sha.hex []
    requestId := "request-1"
    image := .text "strix"
    exposedPorts := []
    manifestDigest := sampleCrypto.sha.hex []
    entryCount := 0
    inlineFileCount := 0
    localDirCount := 0
    inlineFileBytes := 0
    environmentValueBytes := 0
    hostPathsIncluded := false
    rawFileContentIncluded := false
    filesystemIoPerformed := false
    manifestMaterialized := false
    uploadEnabled := false
    activeExecutionEnabled := false }
  issuedAt := 100
  expiresAt := 220
  signatureAlg := "hmac-sha256"
  signature := sampleCrypto.sha.hex []

/-- It is presented with the two readings of the wall clock. -/
def samplePresented (token : String) (wall wallAtJournal : ℚ) : Event :=
  .request (.prepare ⟨"request-1", .text "strix", [], sampleCrypto.sha.hex [], sampleTicket⟩)
    ⟨some wall, some 0, some wallAtJournal, false, [token]⟩

def sampleStart : State := ⟨.empty, Dict.empty⟩

/-- The ticket is presented again after a restart, checked before it expires and looked up when it has. -/
def sampleStaleRun : List Event := [samplePresented "0" 100 100, .restart, samplePresented "1" 219 220]

/-- The ticket is presented again after a restart, checked and looked up before it expires. -/
def sampleTimelyRun : List Event := [samplePresented "0" 100 100, .restart, samplePresented "1" 219 219]

example : sampleStaleRun.length = sampleTimelyRun.length := by decide +kernel

theorem sample_chronological (wall wallAtJournal : ℚ) (h : 100 ≤ wallAtJournal) :
    ChronologicalRun [samplePresented "0" 100 100, .restart, samplePresented "1" wall wallAtJournal] := by
  have hreadings : [samplePresented "0" 100 100, .restart, samplePresented "1" wall wallAtJournal].filterMap Event.journalReading =
      [100, wallAtJournal] := rfl
  rw [ChronologicalRun, hreadings]
  simpa using h

theorem ticket_prepares_once_timely :
    (sessionsOf sampleTicket (replies sampleCrypto sampleConfig sampleStart sampleTimelyRun)).length ≤ 1 := by
  refine ticket_prepares_once _ _ _ _ (sample_chronological 219 219 (by norm_num)) ?_ _
  refine show LookedUpInTime _ _ _ _ (_ :: _ :: _ :: []) from ⟨?_, ?_, ?_, trivial⟩
  · intro t w ht
    cases ht
  · intro t w _ h
    cases h.ticket
  · intro t w _ h
    cases h.ticket
    cases h.reading
    decide +kernel

/-- Two sessions come of one ticket, in a run whose clock never goes back. -/
theorem ticket_prepares_twice : ChronologicalRun sampleStaleRun ∧
    sessionsOf sampleTicket (replies sampleCrypto sampleConfig sampleStart sampleStaleRun) = ["prepared-0", "prepared-1"] := by
  refine ⟨sample_chronological 219 220 (by norm_num), ?_⟩
  decide +kernel

end RunnerRpc

end XbowPerso
