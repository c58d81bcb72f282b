import XbowPerso.Lifecycle
import XbowPerso.QueueApi
import XbowPerso.Lib.JsonRoundTrip

/-!
# Enqueueing by key

What callers of `enqueue` may rely on when they give a dedupe key, whatever stores the jobs: there is one job for the key, whoever
asks for the same payload again is given that job, and whoever asks for another payload is refused and changes nothing. The rules
are stated for any pool of programs over a state that holds jobs; both backends are shown to make such pools.
-/

namespace XbowPerso

open Interleave

/-- A dedupe key with the campaign and the kind in which it is unique. -/
abbrev DedupeIndex := Ident × JobKind × Ident

namespace JobStore

/-- The job of a dedupe key. -/
def Holds (s : JobStore) (key : DedupeIndex) (j : Job) : Prop := s j.id = some j ∧ j.dedupe = some key

/-- Each job is well formed under its identifier, and each dedupe key has at most one. -/
structure Keyed (s : JobStore) : Prop where
  ids : ∀ id j, s id = some j → j.id = id
  wellFormed : s.WellFormed
  single : ∀ key i j, s.Holds key i → s.Holds key j → i = j

/-- Every job goes on with its life. -/
def Continues (s s' : JobStore) : Prop := ∀ id j, s id = some j → ∃ j', s' id = some j' ∧ j.Evolves j'

variable {s s' : JobStore}

theorem Continues.refl (s : JobStore) : s.Continues s := fun _ j h => ⟨j, h, .refl⟩

theorem Transition.continues {handed : Option Ident} (h : Transition s s' handed) : s.Continues s' := by
  intro id j hj
  obtain ⟨j', hj', he, -⟩ := h.kept id j hj
  exact ⟨j', hj', he⟩

/-- The job of a key is the job of that key later on, further in its life. -/
theorem Continues.holds (h : s.Continues s') {key : DedupeIndex} {j : Job} (hj : s.Holds key j) :
    ∃ j', s'.Holds key j' ∧ j.Evolves j' := by
  obtain ⟨j', hj', he⟩ := h j.id j hj.1
  have hid : j'.id = j.id := he.keeps.1
  exact ⟨j', ⟨hid ▸ hj', he.dedupe_eq.trans hj.2⟩, he⟩

end JobStore

/-- The error of an `enqueue` whose key has a job with another payload. -/
def PyError.keyReused : PyError := .valueError "dedupe_key reused with different job payload"

/-- `enqueue` compares the payload it was given with the stored one as texts with sorted keys. -/
theorem EnqueueRequest.answerExisting_eq (r : EnqueueRequest) {j : Job} (hw : j.WellFormed) :
    r.answerExisting j = if j.payload = r.payload.encoded then .ok j else .error .keyReused := by
  obtain ⟨p, hp⟩ := hw.encoded
  have hloads : Json.loads j.payload = some p.json.sortKeys := hp ▸ Json.loads_dumpsSorted p.distinct
  have hsame : p.json.sortKeys.dumpsSorted = j.payload := (Json.dumpsSorted_sortKeys _).trans hp.symm
  simp only [answerExisting, hloads, hsame]
  rfl

/-! ## What a step may do, and how a call may end -/

section

variable {σ : Type} (jobs : σ → JobStore) (inv : σ → Prop)

/-- What a step of a thread may do: keep the invariant, let every job go on with its life, and, in an `enqueue` under a dedupe key,
change nothing at all, or store the job of the key when the key has none. -/
structure EnqueueStep (asked : Option EnqueueRequest) (s s' : σ) : Prop where
  inv : inv s → inv s'
  continues : (jobs s).Continues (jobs s')
  own : ∀ r key, asked = some r → r.dedupe = some key → s' = s ∨
    ((∀ j, ¬ (jobs s).Holds key j) ∧ ∃ j, (jobs s').Holds key j ∧ j.payload = r.payload.encoded)

/-- How an `enqueue` under a dedupe key ends: with the job of the key, as it was when it was read, or with the error. -/
def Answered (r : EnqueueRequest) (key : DedupeIndex) (answer : Option (Except PyError QueueResult)) (s : σ) : Prop :=
  ∃ j, (jobs s).Holds key j ∧
    if j.payload = r.payload.encoded then ∃ j', answer = some (.ok (.job (some j'))) ∧ j'.Evolves j
    else answer = some (.error .keyReused)

/-- What a call ends with: an `enqueue` under a dedupe key as above, and one with invalid arguments with their error. -/
structure EnqueueResult {α : Type} (answer : α → Option (Except PyError QueueResult)) (c : QueueSettings × QueueCall) (a : α)
    (s : σ) : Prop where
  valid : ∀ r key, EnqueueRequest.ofCall c.1 c.2 = some r → r.dedupe = some key → Answered jobs r key (answer a) s
  invalid : ∀ campaignId kind payload maxAttempts dedupeKey e,
    c.2 = .enqueue campaignId kind payload maxAttempts dedupeKey →
    EnqueueRequest.validate c.1 campaignId kind payload maxAttempts dedupeKey = .error e → answer a = some (.error e)

/-- The steps of all threads, each asked for its request. -/
abbrev EnqueueSteps (τ : Type) (asked : Nat → Option EnqueueRequest) : σ → σ → Prop :=
  Pool.AnyStep fun k (_ : τ) => EnqueueStep jobs inv (asked k)

variable {jobs inv} {τ : Type} {asked : Nat → Option EnqueueRequest}

/-- The end of an `enqueue` with valid arguments, once it is answered as its dedupe key demands, if it has one. -/
theorem EnqueueResult.of_valid {α : Type} {answer : α → Option (Except PyError QueueResult)} {cfg : QueueSettings}
    {campaignId kind : String} {payload : Payload} {maxAttempts : Int} {dedupeKey : Option String} {r : EnqueueRequest}
    (hv : EnqueueRequest.validate cfg campaignId kind payload maxAttempts dedupeKey = .ok r) {a : α} {s : σ}
    (h : ∀ key, r.dedupe = some key → Answered jobs r key (answer a) s) :
    EnqueueResult jobs answer (cfg, .enqueue campaignId kind payload maxAttempts dedupeKey) a s := by
  constructor
  · intro r' key hr hkey
    simp only [EnqueueRequest.ofCall, hv, Except.toOption, Option.some.injEq] at hr
    subst hr
    exact h key hkey
  · intro _ _ _ _ _ e heq hv'
    cases heq
    rw [hv] at hv'
    cases hv'

/-- The end of an `enqueue` with invalid arguments. -/
theorem EnqueueResult.of_invalid {α : Type} {answer : α → Option (Except PyError QueueResult)} {cfg : QueueSettings}
    {campaignId kind : String} {payload : Payload} {maxAttempts : Int} {dedupeKey : Option String} {e : PyError}
    (hv : EnqueueRequest.validate cfg campaignId kind payload maxAttempts dedupeKey = .error e) {a : α} {s : σ}
    (h : answer a = some (.error e)) :
    EnqueueResult jobs answer (cfg, .enqueue campaignId kind payload maxAttempts dedupeKey) a s := by
  constructor
  · intro r key hr
    simp only [EnqueueRequest.ofCall, hv, Except.toOption] at hr
    cases hr
  · intro _ _ _ _ _ e' heq hv'
    cases heq
    rw [hv] at hv'
    cases hv'
    exact h

/-- The end of another call. -/
theorem EnqueueResult.of_other {α : Type} {answer : α → Option (Except PyError QueueResult)} {cfg : QueueSettings}
    {c : QueueCall} (hc : c.isEnqueue = false) (a : α) (s : σ) : EnqueueResult jobs answer (cfg, c) a s := by
  constructor
  · intro r key hr
    rw [EnqueueRequest.ofCall_eq_none _ hc] at hr
    cases hr
  · intro _ _ _ _ _ e heq
    subst heq
    cases hc

/-- A step that changes nothing. -/
theorem EnqueueStep.refl (o : Option EnqueueRequest) (s : σ) : EnqueueStep jobs inv o s s :=
  ⟨fun h => h, .refl _, fun _ _ _ _ => .inl rfl⟩

/-- The invariant is stable. -/
theorem stable_inv : Stable (EnqueueSteps jobs inv τ asked) inv :=
  fun _ _ ⟨_, _, h⟩ hs => h.inv hs

/-- That a key has a job which goes back to another is stable. -/
theorem stable_holds (key : DedupeIndex) (j : Job) :
    Stable (EnqueueSteps jobs inv τ asked) (fun s => ∃ j', (jobs s).Holds key j' ∧ j.Evolves j') := by
  rintro s s' ⟨_, _, h⟩ ⟨j', hj', he⟩
  obtain ⟨j'', hj'', he'⟩ := h.continues.holds hj'
  exact ⟨j'', hj'', he.trans he'⟩

theorem stable_answered (r : EnqueueRequest) (key : DedupeIndex) (answer : Option (Except PyError QueueResult)) :
    Stable (EnqueueSteps jobs inv τ asked) (Answered jobs r key answer) := by
  rintro s s' ⟨_, _, h⟩ ⟨j, hj, ha⟩
  obtain ⟨j', hj', he⟩ := h.continues.holds hj
  refine ⟨j', hj', ?_⟩
  rw [he.keeps.2.2.2.1]
  split_ifs at ha ⊢ with hp
  · obtain ⟨i, hi, hie⟩ := ha
    exact ⟨i, hi, hie.trans he⟩
  · exact ha

/-- A job that was read under the key, and the answer that `enqueue` makes of it. -/
theorem answered_existing (jobs : σ → JobStore) (r : EnqueueRequest) {key : DedupeIndex} {i j : Job} {s : σ} (hw : i.WellFormed)
    (hj : (jobs s).Holds key j) (he : i.Evolves j) :
    Answered jobs r key (some ((r.answerExisting i).map fun j => .job (some j))) s := by
  refine ⟨j, hj, ?_⟩
  rw [r.answerExisting_eq hw, he.keeps.2.2.2.1]
  split_ifs with hp
  · exact ⟨i, rfl, he⟩
  · rfl

/-! ## What callers may rely on -/

variable {ι α : Type} (jobs) (answer : α → Option (Except PyError QueueResult)) (calls : Nat → QueueSettings × QueueCall)

/-- The request of a thread. -/
def asks (k : Nat) : Option EnqueueRequest := EnqueueRequest.ofCall (calls k).1 (calls k).2

/-- What a schedule of a pool of calls owes the callers of `enqueue`. -/
structure Idempotent (p : Pool τ ι σ α) (ls : List (Nat × ι)) : Prop where
  /-- A dedupe key has at most one job. -/
  single : ∀ key i j, (jobs (p.run ls).shared).Holds key i → (jobs (p.run ls).shared).Holds key j → i = j
  /-- A step of an `enqueue` whose key has a job changes no job and no index. -/
  unchanged : ∀ m ∈ p.moves ls, ∀ r key, asks calls m.thread = some r → r.dedupe = some key →
    (∃ j, (jobs m.before).Holds key j) → m.after = m.before
  /-- An `enqueue` that has ended was answered with the job of its key exactly when it asked for that job's payload; else it was
  refused, and changed no job and no index. -/
  answered : ∀ k r key a, asks calls k = some r → r.dedupe = some key → (p.run ls).thread k = .done a →
    ∃ (j : Job) (stored : Payload), (jobs (p.run ls).shared).Holds key j ∧ j.payload = stored.encoded ∧
      ((∃ j', answer a = some (.ok (.job (some j'))) ∧ j'.Evolves j) ↔ r.payload.json.Reordered stored.json) ∧
      (¬ r.payload.json.Reordered stored.json → answer a = some (.error .keyReused) ∧
        ∀ m ∈ p.moves ls, m.thread = k → m.after = m.before)
  /-- An `enqueue` that repeats one which was answered with a job, its payload in any order of keys, is answered with that job. -/
  repeated : ∀ k k' cfg campaignId kind payload payload' maxAttempts dedupeKey a a' j,
    calls k = (cfg, .enqueue campaignId kind payload maxAttempts (some dedupeKey)) →
    calls k' = (cfg, .enqueue campaignId kind payload' maxAttempts (some dedupeKey)) →
    payload.json.Reordered payload'.json →
    (p.run ls).thread k = .done a → answer a = some (.ok (.job (some j))) → (p.run ls).thread k' = .done a' →
    ∃ j', answer a' = some (.ok (.job (some j'))) ∧ j'.id = j.id

variable {jobs answer calls} {C : τ → ι → σ → Prop} {p : Pool τ ι σ α} {ls : List (Nat × ι)}

/-- Payloads of one encoding are equal up to the order of their keys. -/
theorem Payload.encoded_inj (p p' : Payload) : p.encoded = p'.encoded ↔ p.json.Reordered p'.json :=
  Json.dumpsSorted_inj p.distinct p'.distinct

/-- The answer of an `enqueue` that has ended, told by the payloads. -/
theorem Answered.reordered {r : EnqueueRequest} {key : DedupeIndex} {ans : Option (Except PyError QueueResult)} {s : σ}
    (h : Answered jobs r key ans s) (hk : (jobs s).Keyed) :
    ∃ (j : Job) (stored : Payload), (jobs s).Holds key j ∧ j.payload = stored.encoded ∧
      ((∃ j', ans = some (.ok (.job (some j'))) ∧ j'.Evolves j) ↔ r.payload.json.Reordered stored.json) ∧
      (¬ r.payload.json.Reordered stored.json → ans = some (.error .keyReused)) := by
  obtain ⟨j, hj, hans⟩ := h
  obtain ⟨stored, hs⟩ := (hk.wellFormed j.id j hj.1).encoded
  have hiff : j.payload = r.payload.encoded ↔ r.payload.json.Reordered stored.json := by
    rw [hs, eq_comm]
    exact Payload.encoded_inj _ _
  refine ⟨j, stored, hj, hs, ?_, fun hn => ?_⟩
  · rw [← hiff]
    split_ifs at hans with hp
    · exact ⟨fun _ => hp, fun _ => hans⟩
    · refine ⟨fun ⟨j', hj', _⟩ => ?_, fun h => absurd h hp⟩
      rw [hans] at hj'
      cases hj'
  · rw [← hiff] at hn
    rwa [if_neg hn] at hans

/-- The rules hold of every pool of calls whose steps and results are those of `enqueue`. -/
theorem idempotent_of_safe (hinv : ∀ s, inv s → (jobs s).Keyed) (h0 : inv p.shared)
    (hsafe : p.Safe C (fun k _ => EnqueueStep jobs inv (asks calls k)) (fun k => EnqueueResult jobs answer (calls k)))
    (hc : p.MeetsAll C ls) : Idempotent jobs answer calls p ls := by
  have hkeyed := hinv _ (hsafe.run_keeps hc stable_inv h0)
  have hanswered : ∀ k r key a, asks calls k = some r → r.dedupe = some key → (p.run ls).thread k = .done a →
      Answered jobs r key (answer a) (p.run ls).shared :=
    fun k r key a hr hkey hk => ((hsafe.run hc).result hk).valid r key hr hkey
  refine ⟨hkeyed.single, ?_, ?_, ?_⟩
  · rintro m hm r key hr hkey ⟨j, hj⟩
    rcases (hsafe.moves hc m hm).own r key hr hkey with h | ⟨hn, -⟩
    · exact h
    · exact absurd hj (hn j)
  · intro k r key a hr hkey hk
    obtain ⟨j, stored, hj, hs, hiff, hno⟩ := (hanswered k r key a hr hkey hk).reordered hkeyed
    refine ⟨j, stored, hj, hs, hiff, fun hn => ⟨hno hn, fun m hm hmk => ?_⟩⟩
    -- had the step stored a job, that job would have the payload that was asked for, and would be the job of the key
    subst hmk
    rcases (hsafe.moves hc m hm).own r key hr hkey with h | ⟨-, i, hi, hp⟩
    · exact h
    · obtain ⟨i', hi', he⟩ := hsafe.moves_keep hc (stable_holds key i) m hm ⟨i, hi, .refl⟩
      have hij : i' = j := hkeyed.single key i' j hi' hj
      have hpay : r.payload.encoded = stored.encoded := by
        rw [← hs, ← hij, he.keeps.2.2.2.1, hp]
      exact absurd ((Payload.encoded_inj _ _).mp hpay) hn
  · intro k k' cfg campaignId kind payload payload' maxAttempts dedupeKey a a' j hk hk' hre hdone hans hdone'
    have henc : payload'.encoded = payload.encoded := ((Payload.encoded_inj _ _).mpr hre).symm
    cases hv : EnqueueRequest.validate cfg campaignId kind payload maxAttempts (some dedupeKey) with
    | error e =>
      have herr := ((hsafe.run hc).result hdone).invalid campaignId kind payload maxAttempts (some dedupeKey) e
      simp only [hk, hans, hv] at herr
      cases herr trivial trivial
    | ok r =>
      obtain ⟨hv', hpay⟩ := EnqueueRequest.validate_payload henc hv
      obtain ⟨key, hkey⟩ := EnqueueRequest.validate_dedupe hv
      have hr : asks calls k = some r := by simp only [asks, hk, EnqueueRequest.ofCall, hv, Except.toOption]
      have hr' : asks calls k' = some { r with payload := payload' } := by
        simp only [asks, hk', EnqueueRequest.ofCall, hv', Except.toOption]
      obtain ⟨i, hi, hians⟩ := hanswered k r key a hr hkey hdone
      obtain ⟨i', hi', hians'⟩ := hanswered k' _ key a' hr' hkey hdone'
      cases hkeyed.single key i i' hi hi'
      -- the job of the key has the payload of the first call, since that one was answered with a job
      have hp : i.payload = r.payload.encoded := by
        by_contra hp
        rw [if_neg hp, hans] at hians
        cases hians
      have hp' : i.payload = payload'.encoded := by rw [hp, hpay, henc]
      rw [if_pos hp, hans] at hians
      rw [if_pos hp'] at hians'
      obtain ⟨j₁, hj₁, he₁⟩ := hians
      obtain ⟨j₂, hj₂, he₂⟩ := hians'
      cases hj₁
      exact ⟨j₂, hj₂, he₂.keeps.1.symm.trans he₁.keeps.1⟩

end

end XbowPerso

/-!
## The index value of an enqueue

What the validation of an enqueue makes of the campaign, the kind and the dedupe key that its caller gives.
-/

namespace XbowPerso

namespace EnqueueRequest

open PyText (strip)

variable {cfg : QueueSettings} {campaignId key : String} {kind : JobKind} {payload : Payload} {r : EnqueueRequest}

/-- A row of a campaign, a kind and a key, as they are before they are stripped. -/
def RowOf (campaignId : String) (kind : JobKind) (key : String) (index : DedupeIndex) : Prop :=
  index.1.text = strip campaignId ∧ index.2.1 = kind ∧ index.2.2.text = strip key

theorem validate_spec (h : EnqueueRequest.validate cfg campaignId kind.word payload 2 (some key) = .ok r) :
    r.payload = payload ∧ ∃ index, r.dedupe = some index ∧ RowOf campaignId kind key index := by
  unfold EnqueueRequest.validate at h
  rw [JobKind.ofWord?_word] at h
  split at h
  · cases h
  rename_i campaign hcampaign
  dsimp only at h
  split at h
  · split at h
    · cases h
    rename_i dedupe hdedupe
    split at h
    · cases h
    cases h
    rw [Option.mapM_some] at hdedupe
    cases hkey : boundedIdentifier key "dedupe_key" with
    | error e =>
      rw [hkey] at hdedupe
      cases hdedupe
    | ok k =>
      rw [hkey] at hdedupe
      cases hdedupe
      exact ⟨rfl, _, rfl, text_of_identifierOf hcampaign, rfl, text_of_identifierOf hkey⟩
  · cases h

end EnqueueRequest

end XbowPerso
