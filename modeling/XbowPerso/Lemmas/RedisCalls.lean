import XbowPerso.Lemmas.RedisQueue

/-!
# The calls of the Redis queue are made of its steps

Every step of a call updates the keys as `apply` says of its tag, and a step that stores a job under a dedupe key stores it under
the key of its request. What all steps keep, all calls keep.
-/

namespace XbowPerso

/-- A step that stores a job does so under the dedupe key of its request, or under none when the request has none. -/
def RedisStep.Keyed : RedisStep → Prop
  | .create r _ _ _ => r.dedupeKey = none
  | .createDedupe r key _ _ _ => r.dedupeKey = some key
  | _ => True

namespace RedisQueue

open Interleave

/-- What a step of a call does to the keys. -/
def Applies (t : RedisStep) (env : RedisReading) (s s' : RedisQueue) : Prop := t.Keyed ∧ s' = apply t env s

theorem get_follows (id : Ident) : (get id).Follows Applies := .atomic fun _ _ => ⟨trivial, rfl⟩

theorem created_follows (uuid : Ident) : (created uuid).Follows Applies :=
  (get_follows uuid).bind fun r => by cases r <;> exact .done _

theorem existing_follows (r : EnqueueRequest) (id : Ident) : (existing r id).Follows Applies := by
  refine (get_follows id).bind fun r' => ?_
  cases r' with
  | none => exact .done _
  | some j =>
    dsimp only
    split <;> exact .done _

theorem enqueueRequest_follows (r : EnqueueRequest) : (enqueueRequest r).Follows Applies := by
  unfold enqueueRequest
  refine Prog.Follows.bind (.atomic fun _ _ => ⟨trivial, rfl⟩) fun drawn => ?_
  obtain ⟨uuid, now, score⟩ := drawn
  dsimp only
  split
  · rename_i hkey
    exact Prog.Follows.bind (.atomic fun _ _ => ⟨hkey, rfl⟩) fun _ => created_follows uuid
  · rename_i key hkey
    refine Prog.Follows.bind (.atomic fun _ _ => ⟨hkey, rfl⟩) fun found => ?_
    cases found with
    | some id => exact existing_follows r id
    | none => exact created_follows uuid

/-- A loop that makes one step for each item of a list and goes on with what it returned. -/
theorem steps_follow {α β γ : Type} {t : γ → RedisStep} {u : γ → RedisReading → RedisQueue → RedisQueue × β}
    (h : ∀ c env s, Applies (t c) env s (u c env s).1) (f : α → γ → β → α) (a : α) (cs : List γ) :
    (Prog.foldl (fun a c => (Prog.atomic (t c) (u c)).bind fun b => .done (f a c b)) a cs).Follows Applies := by
  refine Prog.Follows.foldl (fun a c => ?_) a cs
  refine Prog.Follows.bind (.atomic (h c)) fun _ => ?_
  exact .done _

theorem recoverExpiredLeases_follows (cfg : QueueSettings) : (recoverExpiredLeases cfg).Follows Applies :=
  Prog.Follows.bind (.atomic fun _ _ => ⟨trivial, rfl⟩) fun _ => steps_follow (fun _ _ _ => by exact ⟨trivial, rfl⟩) _ _ _

theorem claimLoop_follows (worker : Ident) (turns : Nat) : (claimLoop worker turns).Follows Applies := by
  induction turns with
  | zero => exact .done _
  | succ turns ih =>
    refine Prog.Follows.bind (.atomic fun _ _ => ⟨trivial, rfl⟩) fun turn => ?_
    cases turn with
    | empty => exact .done _
    | again => exact ih
    | handed id => exact (get_follows id).bind fun _ => .done _

theorem claimKind_follows (cfg : QueueSettings) (worker : Ident) (kind : JobKind) :
    (claimKind cfg worker kind).Follows Applies := by
  refine (recoverExpiredLeases_follows cfg).bind fun _ => Prog.Follows.bind (.atomic fun _ _ => ⟨trivial, rfl⟩) fun ids => ?_
  refine Prog.Follows.bind (.firstSome (fun id => Prog.Follows.bind (.atomic fun _ _ => ⟨trivial, rfl⟩) fun b => ?_) ids) fun r => ?_
  · cases b with
    | true => exact (get_follows id).bind fun _ => .done _
    | false => exact .done _
  · cases r <;> exact .done _

theorem claimRounds_follows (cfg : QueueSettings) (worker : Ident) (kinds : List JobKind) (rounds : Nat) :
    (claimRounds cfg worker kinds rounds).Follows Applies := by
  induction rounds with
  | zero => exact .done _
  | succ rounds ih =>
    refine Prog.Follows.bind (steps_follow (fun _ _ _ => by exact ⟨trivial, rfl⟩) _ _ _) fun candidates => ?_
    split
    · exact .done _
    · refine (claimKind_follows cfg worker _).bind fun r => ?_
      cases r with
      | some j => exact .done _
      | none => exact ih

theorem cancelQueued_follows (campaign : Ident) : (cancelQueued campaign).Follows Applies :=
  Prog.Follows.bind (.atomic fun _ _ => ⟨trivial, rfl⟩) fun _ => steps_follow (fun _ _ _ => by exact ⟨trivial, rfl⟩) _ _ _

theorem checked_follows {α : Type} {c : Except PyError α} {f : α → RedisProg Reply} (h : ∀ a, (f a).Follows Applies) :
    (checked c f).Follows Applies := by
  cases c with
  | error e => exact .done _
  | ok a => exact h a

theorem answered_follows (id : Ident) (b : Bool) : (answered id b).Follows Applies := by
  cases b with
  | true => exact (get_follows id).bind fun _ => .done _
  | false => exact .done _

theorem call_follows (cfg : QueueSettings) (turns : Nat) (c : QueueCall) : (call cfg turns c).Follows Applies := by
  cases c <;> simp only [call]
  case enqueue => exact checked_follows enqueueRequest_follows
  case claim =>
    refine checked_follows fun worker => ?_
    exact (recoverExpiredLeases_follows cfg).bind fun _ => claimLoop_follows worker turns
  case claimAllowed =>
    refine checked_follows fun worker => checked_follows fun kinds => ?_
    refine (recoverExpiredLeases_follows cfg).bind fun _ => ?_
    exact (claimRounds_follows cfg worker kinds maxRounds).bind fun _ => .done _
  case claimKind =>
    refine checked_follows fun worker => checked_follows fun kind => ?_
    exact (claimKind_follows cfg worker kind).bind fun _ => .done _
  case heartbeat =>
    refine checked_follows fun id => checked_follows fun worker => ?_
    exact Prog.Follows.bind (.atomic fun _ _ => ⟨trivial, rfl⟩) fun _ => .done _
  case finish =>
    refine checked_follows fun id => checked_follows fun worker => ?_
    exact Prog.Follows.bind (.atomic fun _ _ => ⟨trivial, rfl⟩) (answered_follows id)
  case cancelQueued =>
    refine checked_follows fun campaign => ?_
    exact (cancelQueued_follows campaign).bind fun _ => .done _
  case cancelOwned =>
    refine checked_follows fun id => checked_follows fun worker => checked_follows fun reason => ?_
    exact Prog.Follows.bind (.atomic fun _ _ => ⟨trivial, rfl⟩) (answered_follows id)
  case recoverExpiredLeases => exact (recoverExpiredLeases_follows cfg).bind fun _ => .done _

theorem session_follows (calls : List (QueueSettings × Nat × QueueCall)) : (session calls).Follows Applies := by
  refine Prog.Follows.foldl (fun replies c => ?_) [] calls
  exact (call_follows c.1 c.2.1 c.2.2).bind fun _ => .done _

end RedisQueue

end XbowPerso
