import XbowPerso.RunnerRpc
import Mathlib.Algebra.Order.Group.Abs
import Mathlib.Tactic.Linarith
import Mathlib.Tactic.NormNum

/-!
# Replays of a signed request

A nonce is kept for one window from the time it was accepted; a request is inside the clock window for one window after the time it
was signed for. A request accepted no earlier than the time it is signed for is never accepted again; one accepted ahead of that
time is accepted again as soon as its nonce has been pruned.
-/

namespace XbowPerso

namespace RunnerRpc

open PyText

variable {digests : Digests} {secret : Option Secret}

/-- What `_authenticate` answers to a request that arrives after a run. -/
def outcome (digests : Digests) (secret : Option Secret) (before : List Arrival) (a : Arrival) : Outcome :=
  (authenticate digests secret (run digests secret .empty before) a.now a.request).1

@[simp] theorem run_cons (t : NonceTable) (a : Arrival) (as : List Arrival) :
    run digests secret t (a :: as) = run digests secret (authenticate digests secret t a.now a.request).2 as := rfl

theorem run_append (t : NonceTable) (as bs : List Arrival) :
    run digests secret t (as ++ bs) = run digests secret (run digests secret t as) bs := List.foldl_append

theorem run_concat (t : NonceTable) (as : List Arrival) (a : Arrival) :
    run digests secret t (as ++ [a]) = (authenticate digests secret (run digests secret t as) a.now a.request).2 := by
  rw [run_append]
  rfl

/-! ## The clock window and the rest of the checks -/

/-- The checks of a request that do not depend on the clock. -/
structure Presents (digests : Digests) (secret : Option Secret) (r : Request) (timestamp : Int) (nonce : String) : Prop where
  hasTimestamp : r.timestamp = some timestamp
  hasNonce : r.nonce = some nonce
  answer : ∀ t now, authenticate digests secret t (some now) r =
    if authWindow < |now - timestamp| then (.rejected 401 "timestamp_out_of_window", t) else t.remember now nonce

variable {t : NonceTable}

/-- An accepted request passed every check and was admitted to the table. -/
theorem presents_of_accepted {now? : Option ℚ} {r : Request}
    (h : (authenticate digests secret t now? r).1 = .accepted) :
    ∃ now timestamp nonce, now? = some now ∧ Presents digests secret r timestamp nonce ∧
      |now - timestamp| ≤ authWindow ∧ authenticate digests secret t now? r = t.remember now nonce := by
  unfold authenticate at h
  split at h
  · cases h
  rename_i s
  split at h
  swap
  · cases h
  rename_i raw nonce signature hr hn hg
  split at h
  · cases h
  rename_i ts hi
  split at h
  · cases h
  rename_i hnonce
  split at h
  · cases h
  rename_i hsignature
  split at h
  · cases h
  rename_i now
  split at h
  · cases h
  rename_i hfloat
  split at h
  · cases h
  rename_i hwindow
  split at h
  · cases h
  rename_i hsigned
  have hans : ∀ t now, authenticate digests (some s) t (some now) r =
      if authWindow < |now - ts| then (.rejected 401 "timestamp_out_of_window", t) else t.remember now nonce := by
    intro t now
    simp only [authenticate, hr, hn, hg, hi, if_neg hnonce, if_neg hsignature, if_neg hfloat, if_neg hsigned]
  refine ⟨now, ts, nonce, rfl, ⟨?_, hn, hans⟩, le_of_not_gt hwindow, ?_⟩
  · rw [Request.timestamp, hr]
    exact hi
  · rw [hans, if_neg hwindow]

/-- What a request may do to the table: nothing, or prune it at its clock reading and perhaps append its nonce. -/
theorem authenticate_entries (digests : Digests) (secret : Option Secret) (t : NonceTable) (now? : Option ℚ)
    (r : Request) :
    (authenticate digests secret t now? r).2 = t ∨
      ∃ now, now? = some now ∧ ((authenticate digests secret t now? r).2.entries = (t.pruneNonces now).entries ∨
        ∃ nonce, (authenticate digests secret t now? r).2.entries = (t.pruneNonces now).entries ++ [(nonce, now)]) := by
  have hremember : ∀ now nonce, (t.remember now nonce).2.entries = (t.pruneNonces now).entries ∨
      (t.remember now nonce).2.entries = (t.pruneNonces now).entries ++ [(nonce, now)] := by
    intro now nonce
    unfold NonceTable.remember
    dsimp only
    split
    · exact .inl rfl
    split
    · exact .inl rfl
    · exact .inr rfl
  unfold authenticate
  split
  · exact .inl rfl
  split
  · split
    · exact .inl rfl
    split
    · exact .inl rfl
    split
    · exact .inl rfl
    split
    · exact .inl rfl
    · split
      · exact .inl rfl
      split
      · exact .inl rfl
      split
      · exact .inl rfl
      · rename_i nonce _ _ _ _ _ _ _ now _ _ _
        exact .inr ⟨now, rfl, (hremember now _).imp_right fun h => ⟨_, h⟩⟩
  · exact .inl rfl

/-! ## How long an entry stays, and how old entries are -/

theorem mem_dropWhile_of_not {α : Type} {p : α → Bool} {a : α} (ha : p a = false) :
    ∀ {l : List α}, a ∈ l → a ∈ l.dropWhile p
  | b :: l, h => by
    by_cases hb : p b = true
    · rw [List.dropWhile_cons_of_pos hb]
      rcases List.mem_cons.mp h with rfl | h
      · rw [ha] at hb
        cases hb
      · exact mem_dropWhile_of_not ha h
    · rwa [List.dropWhile_cons_of_neg hb]

variable {now : ℚ}

/-- An entry of at most one window ago survives a prune. -/
theorem mem_pruneNonces {e : String × ℚ} (he : e ∈ t.entries) (hnow : now ≤ e.2 + authWindow) :
    e ∈ (t.pruneNonces now).entries := by
  have hle : now - authWindow ≤ e.2 := by linarith
  have hrecent : NonceTable.stale now e = false := decide_eq_false (not_lt.mpr hle)
  exact mem_dropWhile_of_not hrecent he

/-- An entry survives a run whose readings are all at most one window later. -/
theorem mem_run {e : String × ℚ} (arrivals : List Arrival) (he : e ∈ t.entries)
    (hnow : ∀ a ∈ arrivals, ∀ now, a.now = some now → now ≤ e.2 + authWindow) :
    e ∈ (run digests secret t arrivals).entries := by
  induction arrivals generalizing t with
  | nil => exact he
  | cons a arrivals ih =>
    rw [run_cons]
    refine ih ?_ (fun b hb => hnow b (List.mem_cons_of_mem _ hb))
    rcases authenticate_entries digests secret t a.now a.request with h | ⟨now, hn, h | ⟨nonce, h⟩⟩
    · rw [h]
      exact he
    · rw [h]
      exact mem_pruneNonces he (hnow a List.mem_cons_self now hn)
    · rw [h]
      exact List.mem_append_left _ (mem_pruneNonces he (hnow a List.mem_cons_self now hn))

/-- No entry is later than a bound on the readings of the run. -/
theorem run_le {bound : ℚ} (arrivals : List Arrival) (ht : ∀ e ∈ t.entries, e.2 ≤ bound)
    (hnow : ∀ a ∈ arrivals, ∀ now, a.now = some now → now ≤ bound) :
    ∀ e ∈ (run digests secret t arrivals).entries, e.2 ≤ bound := by
  induction arrivals generalizing t with
  | nil => exact ht
  | cons a arrivals ih =>
    rw [run_cons]
    refine ih ?_ (fun b hb => hnow b (List.mem_cons_of_mem _ hb))
    have hprune : ∀ now, ∀ e ∈ (t.pruneNonces now).entries, e.2 ≤ bound :=
      fun now e he => ht e ((List.dropWhile_sublist _).subset he)
    intro e he
    rcases authenticate_entries digests secret t a.now a.request with h | ⟨now, hn, h | ⟨nonce, h⟩⟩
    · rw [h] at he
      exact ht e he
    · rw [h] at he
      exact hprune now e he
    · rw [h] at he
      rcases List.mem_append.mp he with he | he
      · exact hprune now e he
      · rw [List.mem_singleton.mp he]
        exact hnow a List.mem_cons_self now hn

/-- A nonce that is admitted was not in the table, and is its last entry then. -/
theorem remember_accepted {nonce : String} (h : (t.remember now nonce).1 = .accepted) :
    nonce ∉ (t.pruneNonces now).entries.map (·.1) ∧ (nonce, now) ∈ (t.remember now nonce).2.entries := by
  unfold NonceTable.remember at h ⊢
  dsimp only at h ⊢
  split at h
  · cases h
  rename_i hn
  refine ⟨hn, ?_⟩
  rw [dif_neg hn]
  split at h
  · cases h
  rename_i hm
  rw [dif_neg hm]
  exact List.mem_append_right _ (List.mem_singleton_self _)

/-- Once every entry has expired, any nonce is admitted. -/
theorem remember_of_all_stale {nonce : String} (h : ∀ e ∈ t.entries, e.2 < now - authWindow) :
    (t.remember now nonce).1 = .accepted := by
  have hnil : (t.pruneNonces now).entries = [] := by
    unfold NonceTable.pruneNonces
    exact List.dropWhile_eq_nil_iff.mpr fun e he => decide_eq_true (h e he)
  unfold NonceTable.remember
  dsimp only
  rw [dif_neg (by rw [hnil]; simp), dif_neg (by rw [hnil]; decide)]

variable {before : List Arrival} {a : Arrival}

/-- The readings of a chronological run are at most its last one. -/
theorem le_last {t0 : ℚ} (h : Chronological (before ++ [a])) (ha : a.now = some t0) :
    ∀ b ∈ before, ∀ now, b.now = some now → now ≤ t0 := by
  unfold Chronological at h
  rw [List.filterMap_append, List.pairwise_append] at h
  intro b hb now hn
  exact h.2.2 now (List.mem_filterMap.mpr ⟨b, hb, hn⟩) t0 (by simp [ha])

/-! ## The result -/

/-- A request that was accepted no earlier than it was signed for is not accepted again. -/
theorem not_accepted_again {between : List Arrival} {b : Arrival}
    (hacc : outcome digests secret before a = .accepted)
    (hpast : ∀ timestamp t0, a.request.timestamp = some timestamp → a.now = some t0 → timestamp ≤ t0)
    (hchron : Chronological (before ++ [a] ++ between ++ [b])) (hsame : b.request.signed = a.request.signed) :
    outcome digests secret (before ++ [a] ++ between) b ≠ .accepted := by
  intro hb
  obtain ⟨t0, ts, nonce, ht0, hpa, -, heq⟩ := presents_of_accepted hacc
  obtain ⟨t1, ts', nonce', ht1, hpb, hwin, heq'⟩ := presents_of_accepted hb
  simp only [Request.signed, Prod.mk.injEq] at hsame
  obtain ⟨-, -, -, hts, hno, -⟩ := hsame
  have hts' : ts' = ts := by simpa [hpa.hasTimestamp, hpb.hasTimestamp] using hts
  have hno' : nonce' = nonce := by simpa [hpa.hasNonce, hpb.hasNonce] using hno
  subst hts' hno'
  have hle : (ts' : ℚ) ≤ t0 := hpast ts' t0 hpa.hasTimestamp ht0
  have ht1' : t1 ≤ t0 + authWindow := by
    have := (abs_le.mp hwin).2
    linarith
  -- the entry of the first acceptance is still there when the request comes back
  have hentry : (nonce', t0) ∈ (run digests secret .empty (before ++ [a] ++ between)).entries := by
    rw [run_append, run_concat]
    refine mem_run between ?_ fun c hc now hn => ?_
    · rw [heq]
      rw [outcome, heq] at hacc
      exact (remember_accepted hacc).2
    · exact (le_last hchron ht1 c (List.mem_append_right _ hc) now hn).trans ht1'
  rw [outcome, heq'] at hb
  exact (remember_accepted hb).1 (List.mem_map.mpr ⟨_, mem_pruneNonces hentry ht1', rfl⟩)

/-- A request that was accepted ahead of the time it was signed for is accepted again at the end of its clock window. -/
theorem accepted_again {ts : Int} {t0 : ℚ}
    (hchron : Chronological (before ++ [a])) (hacc : outcome digests secret before a = .accepted)
    (hts : a.request.timestamp = some ts) (ht0 : a.now = some t0) (hahead : t0 < ts) :
    Chronological (before ++ [a] ++ [⟨some (ts + authWindow), a.request⟩]) ∧
      outcome digests secret (before ++ [a]) ⟨some (ts + authWindow), a.request⟩ = .accepted := by
  obtain ⟨t0', ts', nonce, ht0', hpa, -, -⟩ := presents_of_accepted hacc
  cases hts.symm.trans hpa.hasTimestamp
  have hall : ∀ b ∈ before ++ [a], ∀ now, b.now = some now → now ≤ t0 := by
    intro b hb now hn
    rcases List.mem_append.mp hb with hb | hb
    · exact le_last hchron ht0 b hb now hn
    · rw [List.mem_singleton.mp hb, ht0] at hn
      exact le_of_eq (Option.some.inj hn).symm
  have hwin : (0 : ℚ) ≤ authWindow := by norm_num [authWindow]
  constructor
  · unfold Chronological at hchron ⊢
    rw [List.filterMap_append, List.pairwise_append]
    refine ⟨hchron, List.pairwise_singleton _ _, fun x hx y hy => ?_⟩
    obtain ⟨b, hb, hn⟩ := List.mem_filterMap.mp hx
    have hy' : y = ts + authWindow := by simpa using hy
    have := hall b hb x hn
    linarith
  · unfold outcome
    rw [hpa.answer, if_neg (by rw [add_sub_cancel_left, abs_of_nonneg hwin]; exact lt_irrefl _)]
    refine remember_of_all_stale fun e he => ?_
    have := run_le (before ++ [a]) (fun e he => absurd he List.not_mem_nil) hall e he
    linarith

/-- After any chronological run, an accepted request is safe from every replay exactly when it was accepted no earlier than the
time it was signed for. So in a run whose accepted requests all are, no signed request is accepted twice. -/
theorem replay_protection (digests : Digests) (secret : Option Secret) :
    (∀ before a, Chronological (before ++ [a]) → outcome digests secret before a = .accepted →
      ((∀ between b, Chronological (before ++ [a] ++ between ++ [b]) → b.request.signed = a.request.signed →
          outcome digests secret (before ++ [a] ++ between) b ≠ .accepted) ↔
        ∀ timestamp t0, a.request.timestamp = some timestamp → a.now = some t0 → timestamp ≤ t0)) ∧
    (∀ arrivals, Chronological arrivals →
      (∀ before a after, arrivals = before ++ [a] ++ after → outcome digests secret before a = .accepted →
        ∀ timestamp t0, a.request.timestamp = some timestamp → a.now = some t0 → timestamp ≤ t0) →
      ∀ before a between b after, arrivals = before ++ [a] ++ between ++ [b] ++ after →
        b.request.signed = a.request.signed → outcome digests secret before a = .accepted →
        outcome digests secret (before ++ [a] ++ between) b ≠ .accepted) := by
  constructor
  · intro before a hchron hacc
    constructor
    · intro h timestamp t0 hts ht0
      by_contra hahead
      obtain ⟨hc, ha⟩ := accepted_again hchron hacc hts ht0 (lt_of_not_ge hahead)
      have := h [] ⟨some (timestamp + authWindow), a.request⟩
      rw [List.append_nil] at this
      exact this hc rfl ha
    · exact fun hpast between b hc hsame => not_accepted_again hacc hpast hc hsame
  · intro arrivals hchron hpast before a between b after harr hsame hacc
    refine not_accepted_again hacc ?_ ?_ hsame
    · exact hpast before a (between ++ [b] ++ after) (by rw [harr]; simp only [List.append_assoc]) hacc
    · rw [harr] at hchron
      unfold Chronological at hchron ⊢
      rw [List.filterMap_append] at hchron
      exact (List.pairwise_append.mp hchron).1

/-! ## A replay -/

/-- The two digests, as they are for the request below. -/
def sampleDigests : Digests where
  sha256Hex _ := "44136fa355b3678a1146ad16f7e8649e94fb4fc21fe77e8310c060f61caaff8a"
  hmacSha256Hex _ _ := "9661c65f2e5a6f338aeea18db6551a29f42820196176d562d627a7168a511f31"

def sampleSecret : Secret := ⟨"runner-rpc-secret-of-32-bytes-ok", by decide, by decide⟩

/-- A request signed for the time 1700000030. -/
def sampleRequest : Request where
  method := "POST"
  path := "/v1/session/create"
  headers := [("x-xbow-runner-timestamp", "1700000030"), ("x-xbow-runner-nonce", "00000000000000000000000000000001"),
    ("x-xbow-runner-signature", "9661c65f2e5a6f338aeea18db6551a29f42820196176d562d627a7168a511f31")]
  body := "{}".toUTF8

/-- The request arrives thirty seconds early, and again one second after the time it is signed for: it is accepted twice. -/
theorem accepted_twice :
    Chronological [⟨some 1700000000, sampleRequest⟩, ⟨some 1700000031, sampleRequest⟩] ∧
      outcome sampleDigests (some sampleSecret) [] ⟨some 1700000000, sampleRequest⟩ = .accepted ∧
      outcome sampleDigests (some sampleSecret) [⟨some 1700000000, sampleRequest⟩] ⟨some 1700000031, sampleRequest⟩ =
        .accepted := by
  unfold Chronological
  decide +kernel

/-- A request that arrives at the time it is signed for is not accepted again a second later. -/
theorem replay_protection_on_time :
    outcome sampleDigests (some sampleSecret) [] ⟨some 1700000030, sampleRequest⟩ = .accepted ∧
      outcome sampleDigests (some sampleSecret) [⟨some 1700000030, sampleRequest⟩] ⟨some 1700000031, sampleRequest⟩ ≠
        .accepted := by
  have hacc : outcome sampleDigests (some sampleSecret) [] ⟨some 1700000030, sampleRequest⟩ = .accepted := by
    decide +kernel
  refine ⟨hacc, ?_⟩
  refine (((replay_protection sampleDigests (some sampleSecret)).1 [] ⟨some 1700000030, sampleRequest⟩
    (List.pairwise_singleton _ _) hacc).mpr ?_) [] ⟨some 1700000031, sampleRequest⟩ ?_ rfl
  · intro timestamp t0 hts ht0
    have hts' : sampleRequest.timestamp = some 1700000030 := by decide
    cases hts'.symm.trans hts
    cases ht0
    norm_num
  · unfold Chronological
    decide

end RunnerRpc

end XbowPerso
