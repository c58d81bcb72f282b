import XbowPerso.ApiRateLimit

/-!
# At most the limit in a window

What is left of a window's limit never grows while no call comes late. A late call drops the entries of the later window, and the
limit of both windows starts again.
-/

namespace XbowPerso

namespace FixedWindowLimiter

variable {config : ApiRateLimitConfig} {entries : Entries} {call : Call} {key : String} {window : Int}

/-! ## What a call does -/

theorem check_cases (config : ApiRateLimitConfig) (entries : Entries) (call : Call) :
    (∃ count, entries.get? call.key = some (call.window config, count) ∧ config.requests ≤ count ∧
      check config entries call = (entries, .ok (false, call.retryAfter config))) ∨
    (∃ count, entries.get? call.key = some (call.window config, count) ∧ count < config.requests ∧
      check config entries call =
        (entries.set call.key (call.window config, count + 1), .ok (true, call.retryAfter config))) ∨
    ((∀ count, entries.get? call.key ≠ some (call.window config, count)) ∧ check config entries call = first config entries call) := by
  unfold check
  split
  · rename_i hget
    refine .inr (.inr ⟨fun count h => ?_, rfl⟩)
    rw [hget] at h
    cases h
  · rename_i w count hget
    by_cases hw : w = call.window config
    · subst hw
      rw [if_neg (not_not.mpr rfl)]
      by_cases hfull : config.requests ≤ count
      · exact .inl ⟨count, hget, hfull, if_pos hfull⟩
      · exact .inr (.inl ⟨count, hget, not_le.mp hfull, if_neg hfull⟩)
    · rw [if_pos hw]
      refine .inr (.inr ⟨fun count' h => ?_, rfl⟩)
      rw [hget] at h
      exact hw (Prod.mk.inj (Option.some.inj h)).1

theorem first_cases (config : ApiRateLimitConfig) (entries : Entries) (call : Call) :
    (config.maxKeys ≤ (prune entries (call.window config)).size ∧
      first config entries call =
        (prune entries (call.window config), .error (.runtimeError "API rate limiter capacity exhausted"))) ∨
    ((prune entries (call.window config)).size < config.maxKeys ∧
      first config entries call =
        ((prune entries (call.window config)).set call.key (call.window config, 1), .ok (true, call.retryAfter config))) := by
  unfold first
  by_cases h : config.maxKeys ≤ (prune entries (call.window config)).size
  · exact .inl ⟨h, if_pos h⟩
  · exact .inr ⟨not_le.mp h, if_neg h⟩

theorem get?_prune {count : Nat} {w : Int} :
    (prune entries window).get? key = some (w, count) ↔ entries.get? key = some (w, count) ∧ w = window := by
  rw [prune, Dict.get?_filter, Option.filter_eq_some_iff, decide_eq_true_iff]

theorem size_prune_le (entries : Entries) (window : Int) : (prune entries window).size ≤ entries.size :=
  List.length_filter_le _ _

/-! ## The size of the table -/

theorem size_step (h : entries.size ≤ config.maxKeys) (call : Call) :
    ((machine config).step entries call).size ≤ config.maxKeys := by
  have hkept := (size_prune_le entries (call.window config)).trans h
  show (check config entries call).1.size ≤ _
  rcases check_cases config entries call with ⟨count, -, -, heq⟩ | ⟨count, hget, -, heq⟩ | ⟨-, heq⟩
  · rw [heq]
    exact h
  · have hmem : call.key ∈ entries.keys := Dict.mem_keys.mpr ⟨_, Dict.mem_entries.mpr hget⟩
    rw [heq, Dict.size_set_of_mem hmem]
    exact h
  · rw [heq]
    rcases first_cases config entries call with ⟨-, heq⟩ | ⟨hlt, heq⟩
    · rw [heq]
      exact hkept
    · rw [heq]
      by_cases hmem : call.key ∈ (prune entries (call.window config)).keys
      · rw [Dict.size_set_of_mem hmem]
        exact hkept
      · rw [Dict.size_set_of_not_mem hmem]
        exact hlt

theorem size_entriesAfter (calls : List Call) : (entriesAfter config calls).size ≤ config.maxKeys := by
  induction calls using List.reverseRecOn with
  | nil => exact Nat.zero_le _
  | append_singleton calls call ih =>
    rw [entriesAfter, List.foldl_concat]
    exact size_step ih call

/-! ## What a window has counted -/

/-- Some entry is of a later window. -/
def Later (entries : Entries) (window : Int) : Prop := ∃ key w count, entries.get? key = some (w, count) ∧ window < w

/-- The calls of a key that a window allowed are counted, as long as no later window has begun. -/
structure Counted (config : ApiRateLimitConfig) (entries : Entries) (key : String) (window : Int) (used : Nat) : Prop where
  used_le : used ≤ config.requests
  entry : 0 < used → Later entries window ∨ ∃ count, entries.get? key = some (window, count) ∧ used ≤ count

/-- How many of a key and a window a call adds to the allowed ones. -/
def charge (config : ApiRateLimitConfig) (key : String) (window : Int) (entries : Entries) (call : Call) : Nat :=
  if call.key = key ∧ call.window config = window ∧ allows config entries call = true then 1 else 0

theorem Timely.le (h : Timely config call entries) {w : Int} {count : Nat} (hget : entries.get? key = some (w, count)) :
    w ≤ call.window config := h _ (Dict.mem_entries.mpr hget)

theorem Timely.not_later (h : Timely config call entries) : ¬ Later entries (call.window config) := by
  rintro ⟨key, w, count, hget, hlt⟩
  exact absurd (h.le hget) (not_le.mpr hlt)

/-- A call leaves an entry of its window. -/
theorem exists_entry_step (config : ApiRateLimitConfig) (entries : Entries) (call : Call) :
    ∃ key count, ((machine config).step entries call).get? key = some (call.window config, count) := by
  show ∃ key count, (check config entries call).1.get? key = some (call.window config, count)
  rcases check_cases config entries call with ⟨count, hget, -, heq⟩ | ⟨count, -, -, heq⟩ | ⟨-, heq⟩
  · exact ⟨call.key, count, by rw [heq]; exact hget⟩
  · exact ⟨call.key, count + 1, by rw [heq]; exact Dict.get?_set_self⟩
  · rcases first_cases config entries call with ⟨hfull, hfirst⟩ | ⟨-, hfirst⟩
    · -- a table that is full holds an entry
      have hpos := config.maxKeys_pos.trans_le hfull
      obtain ⟨⟨key, w, count⟩, hmem⟩ := List.exists_mem_of_length_pos hpos
      obtain ⟨hget, rfl⟩ := get?_prune.mp (Dict.mem_entries.mp hmem)
      exact ⟨key, count, by rw [heq, hfirst]; exact Dict.mem_entries.mp hmem⟩
    · exact ⟨call.key, 1, by rw [heq, hfirst]; exact Dict.get?_set_self⟩

theorem later_step (h : window < call.window config) : Later ((machine config).step entries call) window := by
  obtain ⟨key, count, hget⟩ := exists_entry_step config entries call
  exact ⟨key, _, count, hget, h⟩

/-- A count of the window of a call stays, or grows. -/
theorem entry_step {count : Nat} (hget : entries.get? key = some (call.window config, count)) :
    ∃ count', ((machine config).step entries call).get? key = some (call.window config, count') ∧ count ≤ count' := by
  show ∃ count', (check config entries call).1.get? key = some (call.window config, count') ∧ count ≤ count'
  rcases check_cases config entries call with ⟨_, -, -, heq⟩ | ⟨n, hn, -, heq⟩ | ⟨hnone, heq⟩
  · exact ⟨count, by rw [heq]; exact hget, le_rfl⟩
  · by_cases hkey : key = call.key
    · subst hkey
      rw [hget] at hn
      cases hn
      exact ⟨count + 1, by rw [heq]; exact Dict.get?_set_self, Nat.le_succ count⟩
    · exact ⟨count, by rw [heq]; exact (Dict.get?_set_of_ne hkey).trans hget, le_rfl⟩
  · have hkey : key ≠ call.key := by
      rintro rfl
      exact hnone count hget
    have hkept := get?_prune.mpr ⟨hget, rfl⟩
    rcases first_cases config entries call with ⟨-, hfirst⟩ | ⟨-, hfirst⟩
    · exact ⟨count, by rw [heq, hfirst]; exact hkept, le_rfl⟩
    · exact ⟨count, by rw [heq, hfirst]; exact (Dict.get?_set_of_ne hkey).trans hkept, le_rfl⟩

/-- A call that is allowed is the next one of its window. -/
theorem allows_cases (h : allows config entries call = true) :
    (∃ count, entries.get? call.key = some (call.window config, count) ∧ count < config.requests ∧
      ((machine config).step entries call).get? call.key = some (call.window config, count + 1)) ∨
    ((∀ count, entries.get? call.key ≠ some (call.window config, count)) ∧
      ((machine config).step entries call).get? call.key = some (call.window config, 1)) := by
  unfold allows at h
  show (∃ count, _ ∧ _ ∧ (check config entries call).1.get? _ = _) ∨ _ ∧ (check config entries call).1.get? _ = _
  rcases check_cases config entries call with ⟨_, -, -, heq⟩ | ⟨n, hn, hlt, heq⟩ | ⟨hnone, heq⟩
  · rw [heq] at h
    cases h
  · exact .inl ⟨n, hn, hlt, by rw [heq]; exact Dict.get?_set_self⟩
  · rcases first_cases config entries call with ⟨-, hfirst⟩ | ⟨-, hfirst⟩
    · rw [heq, hfirst] at h
      cases h
    · exact .inr ⟨hnone, by rw [heq, hfirst]; exact Dict.get?_set_self⟩

theorem Counted.step {used : Nat} (h : Counted config entries key window used) (htimely : Timely config call entries) :
    Counted config ((machine config).step entries call) key window (used + charge config key window entries call) := by
  unfold charge
  split
  · rename_i hcall
    obtain ⟨rfl, rfl, hallows⟩ := hcall
    rcases allows_cases hallows with ⟨count, hget, hlt, hnext⟩ | ⟨hnone, hnext⟩
    · have hused : used ≤ count := by
        rcases Nat.eq_zero_or_pos used with hzero | hpos
        · omega
        · rcases h.entry hpos with hlater | ⟨count', hget', hle⟩
          · exact absurd hlater htimely.not_later
          · rw [hget] at hget'
            cases hget'
            exact hle
      exact ⟨by omega, fun _ => .inr ⟨count + 1, hnext, by omega⟩⟩
    · have hused : used = 0 := by
        by_contra hne
        rcases h.entry (Nat.pos_of_ne_zero hne) with hlater | ⟨count', hget', -⟩
        · exact htimely.not_later hlater
        · exact hnone count' hget'
      subst hused
      exact ⟨config.requests_pos, fun _ => .inr ⟨1, hnext, le_rfl⟩⟩
  · refine ⟨h.used_le, fun hpos => ?_⟩
    rcases h.entry hpos with ⟨key', w, count, hget, hlt⟩ | ⟨count, hget, hle⟩
    · exact .inl (later_step (hlt.trans_le (htimely.le hget)))
    · rcases lt_or_eq_of_le (htimely.le hget) with hlt | heq
      · exact .inl (later_step hlt)
      · subst heq
        obtain ⟨count', hget', hle'⟩ := entry_step hget
        exact .inr ⟨count', hget', hle.trans hle'⟩

theorem Counted.run {used : Nat} (h : Counted config entries key window used) {calls : List Call}
    (htimely : (machine config).Along (Timely config) entries calls) :
    used + allowed config key window entries calls ≤ config.requests := by
  induction calls generalizing entries used with
  | nil => exact h.used_le
  | cons call calls ih =>
    have hrest := ih (h.step htimely.1) htimely.2
    rw [Nat.add_assoc] at hrest
    exact hrest

/-- The table never holds more keys than it may, and no window allows more calls of a key than the limit while no call comes late. -/
theorem allowed_le_requests (config : ApiRateLimitConfig) (calls : List Call) :
    (entriesAfter config calls).size ≤ config.maxKeys ∧
      ((machine config).Along (Timely config) (machine config).init calls →
        ∀ key window, allowed config key window (machine config).init calls ≤ config.requests) := by
  refine ⟨size_entriesAfter calls, fun htimely key window => ?_⟩
  have hinit : Counted config (machine config).init key window 0 := ⟨Nat.zero_le _, fun h => absurd h (Nat.lt_irrefl 0)⟩
  have hrun := hinit.run htimely
  rwa [Nat.zero_add] at hrun

/-! ## A call that comes late -/

/-- One call in a minute. -/
def sampleLimit : ApiRateLimitConfig := ⟨1, 60, 100, by decide, by decide, by decide⟩

def sampleCall (now : Rat) : Call := ⟨"client-a", now⟩

theorem allowed_le_requests_sample :
    (entriesAfter sampleLimit [sampleCall 60, sampleCall 61]).size ≤ 100 ∧
      allowed sampleLimit "client-a" 1 (machine sampleLimit).init [sampleCall 60, sampleCall 61] ≤ 1 := by
  obtain ⟨hsize, hallowed⟩ := allowed_le_requests sampleLimit [sampleCall 60, sampleCall 61]
  refine ⟨hsize, hallowed ⟨?_, ?_, trivial⟩ "client-a" 1⟩
  all_goals
    unfold Timely
    decide +kernel

/-- A call that read its time just before the window began makes the window allow its one call twice. -/
theorem allowed_twice_after_late :
    ¬ allowed sampleLimit "client-a" 1 (machine sampleLimit).init [sampleCall 60, sampleCall 59, sampleCall 61] ≤ sampleLimit.requests := by
  decide +kernel

end FixedWindowLimiter

end XbowPerso
