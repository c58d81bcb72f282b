import Mathlib
import XbowPerso.Theorems.FixedWindow

/-!
# The two limiters decide alike

Both count the calls of a key in a window, one up to the limit and the other beyond it. The time to wait is the end of the window for
the one, and for the other what is left of a counter that was set by the first call of the window, in whole seconds.
-/

namespace XbowPerso

namespace RedisFixedWindowLimiter

open FixedWindowLimiter (Call Entries entriesAfter check_cases first_cases get?_prune size_prune_le)

variable {config : ApiRateLimitConfig} {digest : String → String}

/-! ## The calls of a key in a window -/

/-- A call of the key in the window. -/
def isOf (config : ApiRateLimitConfig) (key : String) (window : Int) (call : Call) : Bool :=
  decide (call.key = key) && decide (call.window config = window)

def tried (config : ApiRateLimitConfig) (key : String) (window : Int) (calls : List Call) : Nat := calls.countP (isOf config key window)

/-- The call of the key and the window of a call that came first, which may be the call itself. -/
def firstOf (config : ApiRateLimitConfig) (before : List Call) (call : Call) : Call :=
  (before.find? (isOf config call.key (call.window config))).getD call

theorem isOf_iff {key : String} {window : Int} {call : Call} :
    isOf config key window call = true ↔ call.key = key ∧ call.window config = window := by
  rw [isOf, Bool.and_eq_true, decide_eq_true_eq, decide_eq_true_eq]

theorem tried_concat (key : String) (window : Int) (before : List Call) (call : Call) :
    tried config key window (before ++ [call]) =
      tried config key window before + if isOf config key window call = true then 1 else 0 := by
  rw [tried, List.countP_append, List.countP_singleton]
  rfl

theorem tried_eq_zero_iff {key : String} {window : Int} {before : List Call} :
    tried config key window before = 0 ↔ before.find? (isOf config key window) = none := by
  rw [tried, List.countP_eq_zero, List.find?_eq_none]

/-! ## Time -/

/-- The end of a window, in seconds. -/
def windowEnd (config : ApiRateLimitConfig) (window : Int) : Int := config.windowSeconds * (window + 1)

theorem floor_bounds_window (config : ApiRateLimitConfig) (call : Call) :
    config.windowSeconds * call.window config ≤ call.now.floor ∧ call.now.floor < windowEnd config (call.window config) := by
  have hpos : (0 : Rat) < config.windowSeconds := by exact_mod_cast config.windowSeconds_pos
  have hle : ((call.window config : Int) : Rat) ≤ call.now / config.windowSeconds := Rat.floor_le _
  have hlt : call.now / config.windowSeconds < ((call.window config + 1 : Int) : Rat) := Rat.lt_floor_add_one _
  constructor
  · refine Rat.le_floor_iff.mpr ?_
    push_cast
    rw [mul_comm]
    exact (le_div_iff₀ hpos).mp hle
  · refine Rat.floor_lt_iff.mpr ?_
    rw [windowEnd, Int.cast_mul, Int.cast_natCast, mul_comm]
    exact (div_lt_iff₀ hpos).mp hlt

theorem retryAfter_eq (config : ApiRateLimitConfig) (call : Call) :
    call.retryAfter config = windowEnd config (call.window config) - call.now.floor := by
  obtain ⟨-, hlt⟩ := floor_bounds_window config call
  have hfloor : (call.now - config.windowSeconds * call.window config).floor =
      call.now.floor - config.windowSeconds * call.window config := by
    have hcast : (call.now - config.windowSeconds * call.window config : Rat) =
        call.now + ((-(config.windowSeconds * call.window config) : Int) : Rat) := by push_cast; ring
    rw [hcast, Rat.floor_add_intCast, sub_eq_add_neg]
  rw [Call.retryAfter, hfloor]
  rw [windowEnd] at hlt ⊢
  rw [mul_add, mul_one] at hlt ⊢
  omega

theorem clock_div (call : Call) : clock call / 1000 = call.now.floor := by
  have hle : ((call.now.floor : Int) : Rat) ≤ call.now := Rat.floor_le _
  have hlt : call.now < ((call.now.floor + 1 : Int) : Rat) := Rat.lt_floor_add_one _
  rw [Int.cast_add, Int.cast_one] at hlt
  have hlow : call.now.floor * 1000 ≤ clock call := by
    refine Rat.le_floor_iff.mpr ?_
    push_cast
    linarith
  have hhigh : clock call < (call.now.floor + 1) * 1000 := by
    refine Rat.floor_lt_iff.mpr ?_
    push_cast
    linarith
  omega

/-- When the counter expires that a call has set. -/
def expiry (config : ApiRateLimitConfig) (call : Call) : Int := clock call + 1000 * call.retryAfter config

/-- The parts of a second of two calls are at most half a second apart: the first one is later by less, or earlier by no more. -/
def SamePhase (first call : Call) : Prop := 0 ≤ clock first % 1000 - clock call % 1000 + 500 ∧ clock first % 1000 - clock call % 1000 < 500

/-- A counter is there until its window ends. -/
theorem clock_lt_expiry {first call : Call} (h : first.window config = call.window config) : clock call < expiry config first := by
  obtain ⟨-, hlt⟩ := floor_bounds_window config call
  have hcall := clock_div call
  have hfirst := clock_div first
  rw [expiry, retryAfter_eq, h]
  omega

/-- What Redis answers for the time to wait. -/
def redisRetry (config : ApiRateLimitConfig) (first call : Call) : Int :=
  max 1 (if 0 < ttl (clock call) (some (expiry config first)) then ttl (clock call) (some (expiry config first)) else config.windowSeconds)

theorem redisRetry_eq_iff {first call : Call} (h : first.window config = call.window config) :
    redisRetry config first call = call.retryAfter config ↔
      SamePhase first call ∨ config.windowSeconds = 1 ∧ clock first % 1000 - clock call % 1000 < 500 := by
  obtain ⟨hlow, hlt⟩ := floor_bounds_window config call
  have hcall := clock_div call
  have hfirst := clock_div first
  have hpos := config.windowSeconds_pos
  have hend : windowEnd config (call.window config) = config.windowSeconds * call.window config + config.windowSeconds := by
    rw [windowEnd, mul_add, mul_one]
  have httl : ttl (clock call) (some (expiry config first)) =
      call.retryAfter config + (clock first % 1000 - clock call % 1000 + 500) / 1000 := by
    rw [ttl, expiry, retryAfter_eq, retryAfter_eq, h]
    omega
  have hmod := Int.emod_nonneg (clock first) (show (1000 : Int) ≠ 0 by decide)
  have hmod' := Int.emod_lt_of_pos (clock first) (show (0 : Int) < 1000 by decide)
  have hmod'' := Int.emod_nonneg (clock call) (show (1000 : Int) ≠ 0 by decide)
  have hmod''' := Int.emod_lt_of_pos (clock call) (show (0 : Int) < 1000 by decide)
  have hretry := retryAfter_eq config call
  unfold redisRetry SamePhase
  rw [httl]
  generalize clock first % 1000 = a at *
  generalize clock call % 1000 = b at *
  generalize call.retryAfter config = r at *
  generalize config.windowSeconds * call.window config = base at *
  split <;> omega

/-! ## What the limiters have counted -/

/-- The keys of Redis after some calls. -/
def dbAfter (config : ApiRateLimitConfig) (digest : String → String) (calls : List Call) : Db :=
  calls.foldl (machine config digest).step (machine config digest).init

/-- The entries of the latest window are the calls that were counted in it, up to the limit. -/
structure Remembered (config : ApiRateLimitConfig) (before : List Call) (entries : Entries) : Prop where
  fresh : ∀ key window, (∀ c ∈ before, c.window config ≤ window) → tried config key window before = 0 →
    ∀ count, entries.get? key ≠ some (window, count)
  counted : ∀ key window, (∀ c ∈ before, c.window config ≤ window) → 0 < tried config key window before →
    entries.get? key = some (window, min (tried config key window before) config.requests)
  keys : ∀ key ∈ entries.keys, key ∈ before.map Call.key

/-- Redis counts all calls, and a counter expires when its first call said. -/
structure Stored (config : ApiRateLimitConfig) (digest : String → String) (keys : List String) (before : List Call) (db : Db) : Prop where
  counters : ∀ key ∈ keys, ∀ window, db.counters.get? (window, digest key) =
    (before.find? (isOf config key window)).map fun first => ⟨tried config key window before, some (expiry config first)⟩
  active : ∀ member ∈ db.active.keys, member ∈ before.map fun c => digest c.key

theorem mem_keys_set {κ α : Type} [DecidableEq κ] {d : Dict κ α} {k k' : κ} {v : α} (h : k' ∈ (d.set k v).keys) :
    k' = k ∨ k' ∈ d.keys := by
  by_cases heq : k' = k
  · exact .inl heq
  · right
    obtain ⟨w, hw⟩ := Dict.mem_keys.mp h
    rw [Dict.mem_entries, Dict.get?_set_of_ne heq] at hw
    exact Dict.mem_keys.mpr ⟨w, Dict.mem_entries.mpr hw⟩

theorem mem_keys_filter {κ α : Type} {d : Dict κ α} {p : κ × α → Bool} {k : κ} (h : k ∈ (d.filter p).keys) : k ∈ d.keys := by
  obtain ⟨v, hv⟩ := Dict.mem_keys.mp h
  exact Dict.mem_keys.mpr ⟨v, (List.mem_filter.mp hv).1⟩

/-- A table of few keys is small. -/
theorem size_le_of_keys {κ α : Type} [DecidableEq κ] {d : Dict κ α} {l : List κ} (h : ∀ k ∈ d.keys, k ∈ l) :
    d.size ≤ l.dedup.length := by
  rw [Dict.size_eq_length_keys]
  exact (d.nodup.subperm fun k hk => List.mem_dedup.mpr (h k hk)).length_le

theorem size_lt_maxKeys {keys : List String} {before : List Call} (hfew : keys.dedup.length < config.maxKeys)
    (hbefore : ∀ c ∈ before, c.key ∈ keys) {entries : Entries} (h : ∀ key ∈ entries.keys, key ∈ before.map Call.key) :
    entries.size < config.maxKeys := by
  refine (size_le_of_keys fun key hkey => ?_).trans_lt hfew
  obtain ⟨c, hc, rfl⟩ := List.mem_map.mp (h key hkey)
  exact hbefore c hc

theorem active_lt_maxKeys {keys : List String} {before : List Call} (hfew : keys.dedup.length < config.maxKeys)
    (hbefore : ∀ c ∈ before, c.key ∈ keys) {active : Dict String Int}
    (h : ∀ member ∈ active.keys, member ∈ before.map fun c => digest c.key) : active.size < config.maxKeys := by
  refine (size_le_of_keys (l := keys.dedup.map digest) fun member hmember => ?_).trans_lt ?_
  · obtain ⟨c, hc, rfl⟩ := List.mem_map.mp (h member hmember)
    exact List.mem_map.mpr ⟨c.key, List.mem_dedup.mpr (hbefore c hc), rfl⟩
  · refine ((List.dedup_sublist _).length_le.trans_eq (List.length_map _)).trans_lt hfew

/-! ## One call -/

/-- The call is of the latest window, and its key is one of few. -/
structure Next (config : ApiRateLimitConfig) (keys : List String) (before : List Call) (call : Call) : Prop where
  few : keys.dedup.length < config.maxKeys
  before_mem : ∀ c ∈ before, c.key ∈ keys
  mem : call.key ∈ keys
  latest : ∀ c ∈ before, c.window config ≤ call.window config

variable {keys : List String} {before : List Call} {call : Call} {entries : Entries} {db : Db}

/-- What the limiter of the process answers, and the entry that it leaves. -/
theorem memory_spec (hnext : Next config keys before call) (h : Remembered config before entries) :
    (FixedWindowLimiter.check config entries call).2 =
        .ok (decide (tried config call.key (call.window config) before < config.requests), call.retryAfter config) ∧
      (FixedWindowLimiter.check config entries call).1.get? call.key =
        some (call.window config, min (tried config call.key (call.window config) before + 1) config.requests) ∧
      (∀ key, key ≠ call.key → ∀ e, e.1 = call.window config →
        ((FixedWindowLimiter.check config entries call).1.get? key = some e ↔ entries.get? key = some e)) ∧
      (∀ key e, (FixedWindowLimiter.check config entries call).1.get? key = some e →
        e.1 = call.window config ∨ entries.get? key = some e) ∧
      ∀ key ∈ (FixedWindowLimiter.check config entries call).1.keys, key ∈ (before ++ [call]).map Call.key := by
  have hkeys : ∀ key ∈ entries.keys, key ∈ (before ++ [call]).map Call.key := by
    intro key hkey
    rw [List.map_append]
    exact List.mem_append_left _ (h.keys key hkey)
  have hself : call.key ∈ (before ++ [call]).map Call.key := List.mem_map_of_mem (List.mem_append_right _ List.mem_cons_self)
  have hrequests := config.requests_pos
  have hcount : ∀ count, entries.get? call.key = some (call.window config, count) →
      count = min (tried config call.key (call.window config) before) config.requests := by
    intro count hget
    have hpos : 0 < tried config call.key (call.window config) before := by
      by_contra hzero
      exact h.fresh call.key _ hnext.latest (Nat.eq_zero_of_not_pos hzero) count hget
    have hcount := h.counted call.key _ hnext.latest hpos
    rw [hget] at hcount
    exact (Prod.mk.inj (Option.some.inj hcount)).2
  rcases check_cases config entries call with ⟨count, hget, hfull, heq⟩ | ⟨count, hget, hlt, heq⟩ | ⟨hnone, heq⟩
  · have hmin := hcount count hget
    rw [heq]
    refine ⟨?_, ?_, fun _ _ _ _ => Iff.rfl, fun _ _ he => .inr he, hkeys⟩
    · rw [decide_eq_false (show ¬ tried config call.key (call.window config) before < config.requests by omega)]
    · rw [hget, show count = min (tried config call.key (call.window config) before + 1) config.requests by omega]
  · have hmin := hcount count hget
    rw [heq]
    refine ⟨?_, ?_, fun key hkey e _ => ?_, fun key e he => ?_, fun key hkey => ?_⟩
    · rw [decide_eq_true (show tried config call.key (call.window config) before < config.requests by omega)]
    · rw [Dict.get?_set_self, show count + 1 = min (tried config call.key (call.window config) before + 1) config.requests by omega]
    · rw [Dict.get?_set_of_ne hkey]
    · by_cases hkey : key = call.key
      · rw [hkey, Dict.get?_set_self] at he
        exact .inl (by rw [← Option.some.inj he])
      · exact .inr (by rwa [Dict.get?_set_of_ne hkey] at he)
    · rcases mem_keys_set hkey with rfl | hkey
      · exact hself
      · exact hkeys key hkey
  · have hzero : tried config call.key (call.window config) before = 0 := by
      by_contra hne
      exact hnone _ (h.counted call.key _ hnext.latest (Nat.pos_of_ne_zero hne))
    have hroom : ¬ config.maxKeys ≤ (FixedWindowLimiter.prune entries (call.window config)).size :=
      not_le.mpr ((size_prune_le entries _).trans_lt (size_lt_maxKeys hnext.few hnext.before_mem h.keys))
    rcases first_cases config entries call with ⟨hfull, -⟩ | ⟨-, hfirst⟩
    · exact absurd hfull hroom
    rw [heq, hfirst, hzero]
    refine ⟨?_, ?_, fun key hkey e he => ?_, fun key e he => ?_, fun key hkey => ?_⟩
    · rw [decide_eq_true hrequests]
    · rw [Dict.get?_set_self, show min (0 + 1) config.requests = 1 by omega]
    · rw [Dict.get?_set_of_ne hkey]
      obtain ⟨w, count⟩ := e
      exact get?_prune.trans (and_iff_left he)
    · by_cases hkey : key = call.key
      · rw [hkey, Dict.get?_set_self] at he
        exact .inl (by rw [← Option.some.inj he])
      · rw [Dict.get?_set_of_ne hkey] at he
        obtain ⟨w, count⟩ := e
        exact .inl (get?_prune.mp he).2
    · rcases mem_keys_set hkey with rfl | hkey
      · exact hself
      · exact hkeys key (mem_keys_filter hkey)

theorem Remembered.step (hnext : Next config keys before call) (h : Remembered config before entries) :
    Remembered config (before ++ [call]) ((FixedWindowLimiter.machine config).step entries call) := by
  obtain ⟨-, hself, hother, hold, hkeys⟩ := memory_spec hnext h
  have hsplit : ∀ {window : Int}, (∀ c ∈ before ++ [call], c.window config ≤ window) →
      (∀ c ∈ before, c.window config ≤ window) ∧ call.window config ≤ window := fun hall =>
    ⟨fun c hc => hall c (List.mem_append_left _ hc), hall call (List.mem_append_right _ List.mem_cons_self)⟩
  refine ⟨fun key window hall hzero count hget => ?_, fun key window hall hpos => ?_, hkeys⟩
  · obtain ⟨hbefore, hle⟩ := hsplit hall
    rw [tried_concat] at hzero
    have hnot : ¬ isOf config key window call = true := fun hof => by rw [if_pos hof] at hzero; omega
    rcases hold key _ hget with hwindow | hget
    · -- an entry of the window of the call is one of its key, or was there
      have hwindow : window = call.window config := hwindow
      by_cases hkey : key = call.key
      · exact hnot (isOf_iff.mpr ⟨hkey.symm, hwindow.symm⟩)
      · exact h.fresh key window hbefore (by omega) count ((hother key hkey _ hwindow).mp hget)
    · exact h.fresh key window hbefore (by omega) count hget
  · obtain ⟨hbefore, hle⟩ := hsplit hall
    show (FixedWindowLimiter.check config entries call).1.get? key = _
    rw [tried_concat] at hpos ⊢
    by_cases hof : isOf config key window call = true
    · obtain ⟨rfl, rfl⟩ := isOf_iff.mp hof
      rw [if_pos hof]
      exact hself
    · rw [if_neg hof, Nat.add_zero] at hpos ⊢
      -- some earlier call is of the window, so it is the window of the call
      obtain ⟨c, hc, hcof⟩ := List.countP_pos_iff.mp hpos
      have hwindow : window = call.window config := by
        have hc' := hnext.latest c hc
        rw [(isOf_iff.mp hcof).2] at hc'
        omega
      have hkey : key ≠ call.key := fun heq => hof (isOf_iff.mpr ⟨heq.symm, hwindow.symm⟩)
      exact (hother key hkey _ hwindow).mpr (h.counted key window hbefore hpos)

/-- What the script leaves and returns. -/
theorem script_spec (hdigest : ∀ a ∈ keys, ∀ b ∈ keys, digest a = digest b → a = b) (hnext : Next config keys before call)
    (h : Stored config digest keys before db) :
    (script config db (clock call) (call.retryAfter config) (call.window config) (digest call.key)).2 =
        (((tried config call.key (call.window config) before + 1 : Nat) : Int), ttl (clock call) (some (expiry config (firstOf config before call)))) ∧
      Stored config digest keys (before ++ [call])
        (script config db (clock call) (call.retryAfter config) (call.window config) (digest call.key)).1 := by
  have hactive : ∀ member ∈ ((db.activeAt (clock call)).filter fun e => decide (call.window config - 1 < e.2)).keys,
      member ∈ before.map fun c => digest c.key := by
    intro member hmember
    have hmem := mem_keys_filter hmember
    unfold Db.activeAt at hmem
    split at hmem
    · exact absurd hmem List.not_mem_nil
    · exact h.active member hmem
  have hroom := active_lt_maxKeys hnext.few hnext.before_mem hactive
  have hget := h.counters call.key hnext.mem (call.window config)
  have hcounter : increment (clock call) (call.retryAfter config) (db.counter? (clock call) (call.window config, digest call.key)) =
      ⟨tried config call.key (call.window config) before + 1, some (expiry config (firstOf config before call))⟩ := by
    unfold Db.counter? firstOf
    rw [hget]
    cases hfind : before.find? (isOf config call.key (call.window config)) with
    | none =>
      rw [tried_eq_zero_iff.mpr hfind]
      rfl
    | some first =>
      have hwindow := (isOf_iff.mp (List.find?_some hfind)).2
      have hlive : expired (clock call) (some (expiry config first)) = false :=
        decide_eq_false (not_lt.mpr (clock_lt_expiry hwindow).le)
      have hne : tried config call.key (call.window config) before ≠ 0 := by
        rw [Ne, tried_eq_zero_iff, hfind]
        exact Option.some_ne_none first
      simp only [Option.map_some, Option.filter, hlive, Bool.not_false, if_true, increment, Option.getD_some]
      rw [if_neg (by omega)]
  rw [script]
  simp only [if_neg (fun hfull : _ ∧ _ => absurd hfull.2 (not_le.mpr hroom)), hcounter]
  refine ⟨trivial, ⟨fun key hkey window => ?_, fun member hmember => ?_⟩⟩
  · rw [Dict.get?_set, tried_concat, List.find?_append]
    by_cases hof : isOf config key window call = true
    · obtain ⟨rfl, rfl⟩ := isOf_iff.mp hof
      rw [if_pos rfl, if_pos hof]
      unfold firstOf
      cases before.find? (isOf config call.key (call.window config)) with
      | none => simp [hof]
      | some first => simp
    · have hne : (window, digest key) ≠ (call.window config, digest call.key) := by
        intro heq
        obtain ⟨hwindow, hkeys⟩ := Prod.mk.inj heq
        exact hof (isOf_iff.mpr ⟨hdigest _ hnext.mem _ hkey hkeys.symm, hwindow.symm⟩)
      rw [if_neg hne, if_neg hof, Nat.add_zero, h.counters key hkey window]
      cases before.find? (isOf config key window) with
      | none => simp [hof]
      | some first => simp
  · rw [List.map_append]
    rcases mem_keys_set hmember with rfl | hmem
    · exact List.mem_append_right _ List.mem_cons_self
    · exact List.mem_append_left _ (hactive member hmem)

theorem redis_spec (hdigest : ∀ a ∈ keys, ∀ b ∈ keys, digest a = digest b → a = b) (hnext : Next config keys before call)
    (h : Stored config digest keys before db) :
    (check config digest db call).2 = .ok (decide (tried config call.key (call.window config) before < config.requests),
        redisRetry config (firstOf config before call) call) ∧
      Stored config digest keys (before ++ [call]) ((machine config digest).step db call) := by
  obtain ⟨hreply, hstored⟩ := script_spec hdigest hnext h
  have hcheck : check config digest db call =
      ((script config db (clock call) (call.retryAfter config) (call.window config) (digest call.key)).1,
        .ok (decide (tried config call.key (call.window config) before < config.requests),
          redisRetry config (firstOf config before call) call)) := by
    unfold check
    generalize script config db (clock call) (call.retryAfter config) (call.window config) (digest call.key) = reply at hreply
    obtain ⟨db', count, time⟩ := reply
    obtain ⟨rfl, rfl⟩ := Prod.mk.inj hreply
    simp only
    rw [if_neg (by omega)]
    have hdecide : decide (((tried config call.key (call.window config) before + 1 : Nat) : Int) ≤ config.requests) =
        decide (tried config call.key (call.window config) before < config.requests) := by
      refine decide_eq_decide.mpr ?_
      omega
    rw [hdecide]
    rfl
  refine ⟨by rw [hcheck], ?_⟩
  show Stored config digest keys (before ++ [call]) (check config digest db call).1
  rw [hcheck]
  exact hstored

/-! ## Runs -/

theorem remembered_after (hfew : keys.dedup.length < config.maxKeys) (hmem : ∀ c ∈ before, c.key ∈ keys)
    (hordered : before.Pairwise fun a b => a.window config ≤ b.window config) :
    Remembered config before (entriesAfter config before) := by
  induction before using List.reverseRecOn with
  | nil =>
    refine ⟨fun key window _ _ count hget => ?_, fun key window _ hpos => absurd hpos (Nat.lt_irrefl 0), fun key hkey => ?_⟩
    · cases hget
    · exact absurd hkey List.not_mem_nil
  | append_singleton before call ih =>
    obtain ⟨hbefore, -, hlatest⟩ := List.pairwise_append.mp hordered
    have hmem' : ∀ c ∈ before, c.key ∈ keys := fun c hc => hmem c (List.mem_append_left _ hc)
    have hnext : Next config keys before call :=
      ⟨hfew, hmem', hmem call (List.mem_append_right _ List.mem_cons_self), fun c hc => hlatest c hc call List.mem_cons_self⟩
    rw [entriesAfter, List.foldl_concat]
    exact (ih hmem' hbefore).step hnext

theorem stored_after (hdigest : ∀ a ∈ keys, ∀ b ∈ keys, digest a = digest b → a = b) (hfew : keys.dedup.length < config.maxKeys)
    (hmem : ∀ c ∈ before, c.key ∈ keys) (hordered : before.Pairwise fun a b => a.window config ≤ b.window config) :
    Stored config digest keys before (dbAfter config digest before) := by
  induction before using List.reverseRecOn with
  | nil => exact ⟨fun _ _ _ => rfl, fun member hmember => absurd hmember List.not_mem_nil⟩
  | append_singleton before call ih =>
    obtain ⟨hbefore, -, hlatest⟩ := List.pairwise_append.mp hordered
    have hmem' : ∀ c ∈ before, c.key ∈ keys := fun c hc => hmem c (List.mem_append_left _ hc)
    have hnext : Next config keys before call :=
      ⟨hfew, hmem', hmem call (List.mem_append_right _ List.mem_cons_self), fun c hc => hlatest c hc call List.mem_cons_self⟩
    rw [dbAfter, List.foldl_concat]
    exact (redis_spec hdigest hnext (ih hmem' hbefore)).2

variable (config) in
theorem window_mono {a b : Call} (h : a.now ≤ b.now) : a.window config ≤ b.window config := by
  have hpos : (0 : Rat) < config.windowSeconds := by exact_mod_cast config.windowSeconds_pos
  exact Rat.floor_monotone (div_le_div_of_nonneg_right h hpos.le)

theorem sample_requests_pos : 0 < 2 := by decide

theorem sample_window_pos : 0 < 60 := by decide

theorem sample_keys_pos : 0 < 100 := by decide

/-- Two calls in a minute. -/
def sampleMinute : ApiRateLimitConfig := ⟨2, 60, 100, sample_requests_pos, sample_window_pos, sample_keys_pos⟩

def callAt (now : Rat) : Call := ⟨"client-a", now⟩

end RedisFixedWindowLimiter

end XbowPerso
