import XbowPerso.Identifier
import XbowPerso.Lib.Dict
import XbowPerso.Lib.Simulation

/-!
# The rate limit of the API

`FixedWindowLimiter.check` of one process. The time of a call is read before the lock is taken, so calls come under the lock in any
order of their times. `RedisFixedWindowLimiter.check` runs one script on a counter for each window and client, and on the sorted set of
the clients that are active. Redis has a clock of milliseconds, and `TTL` rounds to the nearest second.
-/

namespace XbowPerso

/-- The settings that the limiter reads. Loading them bounds each from both sides; what the limiter rests on is that each is positive. -/
structure ApiRateLimitConfig where
  requests : Nat
  windowSeconds : Nat
  maxKeys : Nat
  requests_pos : 0 < requests
  windowSeconds_pos : 0 < windowSeconds
  maxKeys_pos : 0 < maxKeys

namespace FixedWindowLimiter

/-- `_entries`: the window in which each key was counted last, and its count there. -/
abbrev Entries := Dict String (Int × Nat)

/-- A call of `check`: its key, and its time in seconds. -/
structure Call where
  key : String
  now : Rat

variable (config : ApiRateLimitConfig)

/-- The window of a call. -/
def Call.window (call : Call) : Int := (call.now / config.windowSeconds).floor

def Call.retryAfter (call : Call) : Int :=
  max 1 (config.windowSeconds - (call.now - config.windowSeconds * call.window config).floor)

/-- The entries that `_prune` keeps. -/
def prune (entries : Entries) (currentWindow : Int) : Entries := entries.filter fun e => decide (e.2.1 = currentWindow)

/-- The first call of a key in a window. What `_prune` dropped is gone also when it then raises. -/
def first (entries : Entries) (call : Call) : Entries × Except PyError (Bool × Int) :=
  let kept := prune entries (call.window config)
  if config.maxKeys ≤ kept.size then (kept, .error (.runtimeError "API rate limiter capacity exhausted"))
  else (kept.set call.key (call.window config, 1), .ok (true, call.retryAfter config))

/-- `check`, from the lock on. -/
def check (entries : Entries) (call : Call) : Entries × Except PyError (Bool × Int) :=
  match entries.get? call.key with
  | none => first config entries call
  | some (window, count) =>
    if window ≠ call.window config then first config entries call
    else if config.requests ≤ count then (entries, .ok (false, call.retryAfter config))
    else (entries.set call.key (call.window config, count + 1), .ok (true, call.retryAfter config))

/-- The limiter, taking one call after the other. -/
def machine : Machine Call (Except PyError (Bool × Int)) Entries where
  init := .empty
  step entries call := (check config entries call).1
  shows entries call := (check config entries call).2

/-- The entries after some calls. -/
def entriesAfter (calls : List Call) : Entries := calls.foldl (machine config).step (machine config).init

/-- A call that `check` answers with `True`. -/
def allows (entries : Entries) (call : Call) : Bool :=
  match (check config entries call).2 with
  | .ok (allowed, _) => allowed
  | .error _ => false

/-- How many calls of a key in a window are allowed, from some entries on. -/
def allowed (key : String) (window : Int) : Entries → List Call → Nat
  | _, [] => 0
  | entries, call :: calls =>
    (if call.key = key ∧ call.window config = window ∧ allows config entries call = true then 1 else 0) +
      allowed key window ((machine config).step entries call) calls

/-- A call that comes after no call of a later window: no entry is of a later window than the call. -/
def Timely (call : Call) (entries : Entries) : Prop := ∀ e ∈ entries.entries, e.2.1 ≤ call.window config

end FixedWindowLimiter

/-! ## The rate limit in Redis -/

namespace RedisFixedWindowLimiter

open FixedWindowLimiter (Call)

/-- A counter, with the time when it expires. -/
structure Counter where
  count : Nat
  expireAt : Option Int

/-- The keys of the limiter: the counters, each under its window and the digest of its client, and the sorted set of active clients. -/
structure Db where
  counters : Dict (Int × String) Counter
  active : Dict String Int
  activeExpireAt : Option Int

def Db.empty : Db := ⟨.empty, .empty, none⟩

/-- The clock of Redis when a call comes. -/
def clock (call : Call) : Int := (call.now * 1000).floor

/-- A key has expired when its time is over. -/
def expired (now : Int) : Option Int → Bool
  | none => false
  | some time => decide (time < now)

/-- `TTL` -/
def ttl (now : Int) : Option Int → Int
  | none => -1
  | some time => (time - now + 500) / 1000

def Db.counter? (db : Db) (now : Int) (key : Int × String) : Option Counter :=
  (db.counters.get? key).filter fun c => !expired now c.expireAt

def Db.activeAt (db : Db) (now : Int) : Dict String Int := if expired now db.activeExpireAt then .empty else db.active

/-- `INCR`, and `EXPIRE` on the first use. -/
def increment (now ttlSeconds : Int) : Option Counter → Counter
  | none => ⟨1, some (now + 1000 * ttlSeconds)⟩
  | some c => if c.count + 1 = 1 then ⟨1, some (now + 1000 * ttlSeconds)⟩ else { c with count := c.count + 1 }

/-- `_SCRIPT`: the keys it leaves, and what it returns. -/
def script (config : ApiRateLimitConfig) (db : Db) (now ttlSeconds window : Int) (member : String) : Db × Int × Int :=
  let active := (db.activeAt now).filter fun e => decide (window - 1 < e.2)
  let existing := db.counter? now (window, member)
  if existing.isNone = true ∧ config.maxKeys ≤ active.size then ({ db with active := active }, -1, ttlSeconds)
  else
    let counter := increment now ttlSeconds existing
    (⟨db.counters.set (window, member) counter, active.set member window, some (now + 1000 * (config.windowSeconds * 2))⟩,
      counter.count, ttl now counter.expireAt)

variable (config : ApiRateLimitConfig) (digest : String → String)

/-- `check` -/
def check (db : Db) (call : Call) : Db × Except PyError (Bool × Int) :=
  let (db', count, ttl) := script config db (clock call) (call.retryAfter config) (call.window config) (digest call.key)
  if count < 0 then (db', .error (.runtimeError "distributed API rate limiter capacity exhausted"))
  else (db', .ok (decide (count ≤ config.requests), max 1 (if 0 < ttl then ttl else config.windowSeconds)))

/-- The limiter, taking one call after the other. -/
def machine : Machine Call (Except PyError (Bool × Int)) Db where
  init := .empty
  step db call := (check config digest db call).1
  shows db call := (check config digest db call).2

end RedisFixedWindowLimiter

end XbowPerso
