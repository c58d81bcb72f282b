import XbowPerso.Egress
import Mathlib.Data.List.Basic

/-!
# The pacing of the egress transport

A contract has one request in flight at most, in every run. Two of its requests are apart by the interval of the later one's rate as
long as the transport remembers the earlier one: the entry of a contract is dropped when a full table needs room, whether or not the
interval has passed, and a rate that is not a number gives an interval that no difference falls short of.
-/

namespace XbowPerso

namespace Egress

open Binary64 (Finite recip sub)

/-- The interval of the rate lies between the two readings. -/
def Apart (rps : Binary64) (before now : Finite) : Prop :=
  ∃ interval, recip rps = some interval ∧ interval.le (sub (.finite now) (.finite before)) = true

/-! ## One call -/

/-- What an admitted request found, and the slots afterwards. -/
structure Acquired (s : Slots) (contractHash : String) (rps : Binary64) (now : Finite) (s' : Slots) : Prop where
  free : contractHash ∉ s.inflight
  interval : ∃ interval, recip rps = some interval
  apart : rps ≠ .nan → ∀ previous, s.lastRequestAt.get? contractHash = some previous → Apart rps previous now
  slots : ∃ table, makeRoom s contractHash = some table ∧
    s' = ⟨table.setLast contractHash now, insert contractHash s.inflight⟩

/-- A request is refused and changes nothing, or it is admitted. -/
theorem acquire_cases (s : Slots) (contractHash : String) (rps : Binary64) (now : Finite) :
    (∃ e, acquireRequestSlot s contractHash rps now = (.error e, s)) ∨
      ∃ s', acquireRequestSlot s contractHash rps now = (.ok (), s') ∧ Acquired s contractHash rps now s' := by
  unfold acquireRequestSlot
  split
  · exact .inl ⟨_, rfl⟩
  rename_i interval hinterval
  split
  · exact .inl ⟨_, rfl⟩
  rename_i hfree
  split
  · exact .inl ⟨_, rfl⟩
  rename_i hremaining
  split
  · exact .inl ⟨_, rfl⟩
  rename_i table htable
  refine .inr ⟨_, rfl, hfree, ⟨interval, hinterval⟩, fun hrps previous hprevious => ?_, table, htable, rfl⟩
  refine ⟨interval, hinterval, Binary64.le_of_not_pos_sub (Binary64.recip_ne_nan hinterval hrps)
    (Binary64.sub_finite_ne_nan now previous) ?_⟩
  unfold remaining? at hremaining
  rw [hprevious] at hremaining
  by_contra hpos
  rw [Bool.not_eq_false] at hpos
  dsimp only at hremaining
  rw [if_pos hpos] at hremaining
  cases hremaining

/-- The step of a request. -/
theorem accept_cases (t : Transport) (contractHash : String) (rps : Binary64) (now : Finite) :
    (admission t (.accept contractHash rps now) = none ∧ t.step (.accept contractHash rps now) = t) ∨
      ∃ s', Acquired t.slots contractHash rps now s' ∧
        admission t (.accept contractHash rps now) = some ⟨contractHash, rps, now⟩ ∧
        t.step (.accept contractHash rps now) = ⟨s', contractHash :: t.flying⟩ := by
  rw [admission, Transport.step]
  rcases acquire_cases t.slots contractHash rps now with ⟨e, hrefused⟩ | ⟨s', hadmitted, hacquired⟩
  · rw [hrefused]
    exact .inl ⟨rfl, rfl⟩
  · rw [hadmitted]
    exact .inr ⟨s', hacquired, rfl, rfl⟩

variable {c : String} {rps : Binary64} {now : Finite}

/-- The slots of a contract after another one is admitted: its entry is as it was, unless it made room. -/
theorem Acquired.get?_of_ne {s s' : Slots} {contractHash : String}
    (h : Acquired s contractHash rps now s') (hne : c ≠ contractHash) :
    s'.lastRequestAt.get? c = s.lastRequestAt.get? c ∨ (Crowded s contractHash ∧ stale? s = some c) := by
  obtain ⟨table, hroom, rfl⟩ := h.slots
  rw [Dict.get?_setLast, if_neg hne]
  unfold makeRoom at hroom
  split at hroom
  · rename_i hcrowded
    obtain ⟨stale, hstale, rfl⟩ := Option.map_eq_some_iff.mp hroom
    by_cases hc : c = stale
    · exact .inr ⟨hcrowded, hc ▸ hstale⟩
    · exact .inl (Dict.get?_erase_of_ne hc)
  · cases hroom
    exact .inl rfl

theorem Acquired.get?_self {s s' : Slots} {contractHash : String}
    (h : Acquired s contractHash rps now s') : s'.lastRequestAt.get? contractHash = some now := by
  obtain ⟨table, -, rfl⟩ := h.slots
  rw [Dict.get?_setLast, if_pos rfl]

/-! ## Requests in flight -/

/-- A contract is in flight exactly when one request is. -/
structure OneFlying (t : Transport) : Prop where
  nodup : t.flying.Nodup
  mem : ∀ c, c ∈ t.flying ↔ c ∈ t.slots.inflight

theorem oneFlying_empty : OneFlying .empty := ⟨List.nodup_nil, fun c => by simp [Transport.empty]⟩

variable {t : Transport}

theorem OneFlying.step (h : OneFlying t) (call : Call) : OneFlying (t.step call) := by
  cases call with
  | accept contractHash rps now =>
    rcases accept_cases t contractHash rps now with ⟨-, hstep⟩ | ⟨s', hacquired, -, hstep⟩
    · rw [hstep]
      exact h
    · rw [hstep]
      obtain ⟨table, -, rfl⟩ := hacquired.slots
      have hnot : contractHash ∉ t.flying := fun hmem => hacquired.free ((h.mem _).mp hmem)
      refine ⟨List.nodup_cons.mpr ⟨hnot, h.nodup⟩, fun c => ?_⟩
      simp only [List.mem_cons, Finset.mem_insert, h.mem]
  | release number =>
    rw [Transport.step]
    split
    · exact h
    rename_i contractHash hfound
    obtain ⟨hlt, rfl⟩ := List.getElem?_eq_some_iff.mp hfound
    rw [← h.nodup.erase_getElem number hlt]
    refine ⟨h.nodup.erase _, fun c => ?_⟩
    rw [h.nodup.mem_erase_iff, releaseRequestSlot, Finset.mem_erase, h.mem]

theorem OneFlying.after (h : OneFlying t) (calls : List Call) : OneFlying (t.after calls) := by
  induction calls generalizing t with
  | nil => exact h
  | cons call calls ih => exact ih (h.step call)

/-! ## Readings and entries -/

/-- The reading of a call. -/
def Call.reading? : Call → Option Finite
  | .accept _ _ now => some now
  | .release _ => none

/-- The readings of the clock never go back. -/
def Chronological (calls : List Call) : Prop := (calls.filterMap Call.reading?).Pairwise fun a b => a.toInt ≤ b.toInt

/-- By the reading `now` the interval since `previous` is over for every later request of the contract. -/
def Over (c : String) (previous now : Finite) (later : List Call) : Prop :=
  ∀ rps at_, Call.accept c rps at_ ∈ later → ∀ interval, recip rps = some interval →
    interval.le (sub (.finite now) (.finite previous)) = true

/-- A call does the contract no harm: its own rates are numbers, and its entry makes room only when its interval is over. -/
def Harmless (c : String) (s : Slots) (later : List Call) : Call → Prop
  | .accept contractHash rps now =>
    (contractHash = c → rps ≠ .nan) ∧
      (Crowded s contractHash → stale? s = some c → ∀ previous, s.lastRequestAt.get? c = some previous → Over c previous now later)
  | .release _ => True

/-- Every call of a run does the contract no harm. -/
def HarmlessRun (c : String) : Transport → List Call → Prop
  | _, [] => True
  | t, call :: calls => Harmless c t.slots calls call ∧ HarmlessRun c (t.step call) calls

/-- The last request of the contract is remembered, or its interval is over for the calls that follow. -/
def Remembered (c : String) (previous : Finite) (t : Transport) (calls : List Call) : Prop :=
  t.slots.lastRequestAt.get? c = some previous ∨
    ∀ rps now, Call.accept c rps now ∈ calls → ∀ interval, recip rps = some interval →
      interval.le (sub (.finite now) (.finite previous)) = true

theorem Chronological.tail {call : Call} {calls : List Call} (h : Chronological (call :: calls)) : Chronological calls := by
  unfold Chronological at h ⊢
  rw [List.filterMap_cons] at h
  split at h
  · exact h
  exact (List.pairwise_cons.mp h).2

variable {calls : List Call}

/-- The readings after a request are not before its own. -/
theorem Chronological.le {contractHash : String}
    (h : Chronological (.accept contractHash rps now :: calls)) :
    ∀ c r n, Call.accept c r n ∈ calls → now.toInt ≤ n.toInt := by
  intro c r n hmem
  unfold Chronological at h
  rw [List.filterMap_cons_some (show Call.reading? (.accept contractHash rps now) = some now from rfl)] at h
  exact (List.pairwise_cons.mp h).1 n (List.mem_filterMap.mpr ⟨_, hmem, rfl⟩)

variable {previous : Finite}

/-- A later reading is apart as well. -/
theorem le_sub_of_le {interval : Binary64} {now' : Finite} (h : interval.le (sub (.finite now) (.finite previous)) = true)
    (hle : now.toInt ≤ now'.toInt) : interval.le (sub (.finite now') (.finite previous)) = true :=
  Binary64.le_trans h (Binary64.sub_le_sub (Int.sub_le_sub_right hle _))

/-- A call that does no harm keeps what is remembered of the contract, unless it is a request of the contract itself. -/
theorem Remembered.step {call : Call}
    (h : Remembered c previous t (call :: calls)) (hharmless : Harmless c t.slots calls call)
    (hchron : Chronological (call :: calls)) (hother : ∀ a, admission t call = some a → a.contractHash ≠ c) :
    Remembered c previous (t.step call) calls := by
  rcases h with hentry | hover
  · cases call with
    | accept contractHash rps now =>
      rcases accept_cases t contractHash rps now with ⟨-, hstep⟩ | ⟨s', hacquired, hadmission, hstep⟩
      · rw [hstep]
        exact .inl hentry
      · rw [hstep]
        have hne : c ≠ contractHash := (hother _ hadmission).symm
        rcases hacquired.get?_of_ne hne with hsame | ⟨hcrowded, hstale⟩
        · exact .inl (hsame.trans hentry)
        · refine .inr fun r n hmem interval hinterval => ?_
          have hdone := hharmless.2 hcrowded hstale previous hentry r n hmem interval hinterval
          exact le_sub_of_le hdone (hchron.le c r n hmem)
    | release number =>
      left
      rw [Transport.step]
      split
      · exact hentry
      · exact hentry
  · exact .inr fun r n hmem => hover r n (List.mem_cons_of_mem _ hmem)

/-- A request of the contract that is admitted. -/
theorem own_request {call : Call} {a : Admission} (h : admission t call = some a) :
    ∃ s', call = .accept a.contractHash a.rps a.now ∧ Acquired t.slots a.contractHash a.rps a.now s' ∧
      t.step call = ⟨s', a.contractHash :: t.flying⟩ := by
  cases call with
  | accept contractHash rps now =>
    rcases accept_cases t contractHash rps now with ⟨hnone, -⟩ | ⟨s', hacquired, hadmission, hstep⟩
    · rw [hnone] at h
      cases h
    · rw [hadmission] at h
      cases h
      exact ⟨s', rfl, hacquired, hstep⟩
  | release number => cases h

/-- It is apart from the request that is remembered before it. -/
theorem Remembered.apart {a : Admission} {s' : Slots}
    (h : Remembered a.contractHash previous t (.accept a.contractHash a.rps a.now :: calls))
    (hacquired : Acquired t.slots a.contractHash a.rps a.now s') (hnumber : a.rps ≠ .nan) : Apart a.rps previous a.now := by
  rcases h with hentry | hover
  · exact hacquired.apart hnumber previous hentry
  · obtain ⟨interval, hinterval⟩ := hacquired.interval
    exact ⟨interval, hinterval, hover a.rps a.now List.mem_cons_self interval hinterval⟩

/-- Readings that are apart stay so when the earlier one moves back. -/
theorem Apart.mono {before : Finite} (h : Apart rps before now)
    (hle : previous.toInt ≤ before.toInt) : Apart rps previous now := by
  obtain ⟨interval, hinterval, hapart⟩ := h
  exact ⟨interval, hinterval, Binary64.le_trans hapart (Binary64.sub_le_sub (Int.sub_le_sub_left hle _))⟩

/-- Every request of the contract that a run admits is apart from the one remembered before it. -/
theorem apart_of_remembered
    (h : Remembered c previous t calls) (hharmless : HarmlessRun c t calls) (hchron : Chronological calls)
    (hprevious : ∀ r n, Call.accept c r n ∈ calls → previous.toInt ≤ n.toInt) :
    ∀ a ∈ admissions t calls, a.contractHash = c → Apart a.rps previous a.now := by
  induction calls generalizing t previous with
  | nil => simp [admissions]
  | cons call calls ih =>
    obtain ⟨hcall, hrest⟩ := hharmless
    have hlater : ∀ r n, Call.accept c r n ∈ calls → previous.toInt ≤ n.toInt :=
      fun r n hmem => hprevious r n (List.mem_cons_of_mem _ hmem)
    intro a ha hc
    rw [admissions, List.mem_append] at ha
    by_cases hown : ∃ a, admission t call = some a ∧ a.contractHash = c
    · obtain ⟨b, hb, rfl⟩ := hown
      obtain ⟨s', rfl, hacquired, hstep⟩ := own_request hb
      have hapart := h.apart hacquired (hcall.1 rfl)
      rcases ha with ha | ha
      · rw [hb, Option.toList_some, List.mem_singleton] at ha
        rw [ha]
        exact hapart
      · -- from now on this request is the one that is remembered
        have hremembered : Remembered b.contractHash b.now (t.step (.accept b.contractHash b.rps b.now)) calls := by
          rw [hstep]
          exact .inl hacquired.get?_self
        have hnext := ih hremembered hrest hchron.tail (fun r n hmem => hchron.le _ r n hmem) a ha hc
        exact hnext.mono (hprevious b.rps b.now List.mem_cons_self)
    · have hother : ∀ a, admission t call = some a → a.contractHash ≠ c := fun a ha hc => hown ⟨a, ha, hc⟩
      rcases ha with ha | ha
      · exact absurd hc (hother a (Option.mem_toList.mp ha))
      · exact ih (h.step hcall hchron hother) hrest hchron.tail hlater a ha hc

/-- The requests of the contract that a run admits are apart. -/
theorem pairwise_apart (hharmless : HarmlessRun c t calls)
    (hchron : Chronological calls) :
    ((admissions t calls).filter fun a => a.contractHash = c).Pairwise fun a b => Apart b.rps a.now b.now := by
  induction calls generalizing t with
  | nil => exact List.Pairwise.nil
  | cons call calls ih =>
    obtain ⟨hcall, hrest⟩ := hharmless
    have hlater := ih hrest hchron.tail
    rw [admissions, List.filter_append]
    cases hb : admission t call with
    | none => exact hlater
    | some b =>
      obtain ⟨s', rfl, hacquired, hstep⟩ := own_request hb
      by_cases hc : b.contractHash = c
      · subst hc
        have hself : [b].filter (fun a => a.contractHash = b.contractHash) = [b] := by simp
        rw [Option.toList_some, hself, List.singleton_append, List.pairwise_cons]
        refine ⟨fun a ha => ?_, hlater⟩
        obtain ⟨hmem, hac⟩ := List.mem_filter.mp ha
        have hremembered : Remembered b.contractHash b.now (t.step (.accept b.contractHash b.rps b.now)) calls := by
          rw [hstep]
          exact .inl hacquired.get?_self
        exact apart_of_remembered hremembered hrest hchron.tail (fun r n h => hchron.le _ r n h) a hmem (of_decide_eq_true hac)
      · rw [Option.toList_some, List.filter_cons_of_neg (by simpa using hc), List.filter_nil, List.nil_append]
        exact hlater

/-- In every run one request of a contract is in flight at most; and with a clock that does not go back, when every call does the
contract no harm, two of its requests are apart by the interval of the later one's rate. -/
theorem egress_pacing (c : String) (calls : List Call) :
    (Transport.empty.after calls).flying.count c ≤ 1 ∧
      (Chronological calls → HarmlessRun c .empty calls →
        ((admissions .empty calls).filter fun a => a.contractHash = c).Pairwise fun a b => Apart b.rps a.now b.now) :=
  ⟨List.nodup_iff_count_le_one.mp (oneFlying_empty.after calls).nodup c, fun hchron hharmless => pairwise_apart hharmless hchron⟩

/-- A reading of the clock. -/
def sampleReading : Finite := ⟨false, 0, Binary64.representable_zero, Binary64.overflow_pos⟩

/-- One second later. -/
def nextReading : Finite := ⟨false, 2 ^ 1074, ⟨1, 1074, by decide, (Nat.one_mul _).symm⟩, by decide +kernel⟩

def sampleContract : String := String.ofList (List.replicate 64 'f')

/-- Two requests, one second apart. -/
def pacedRun : List Call :=
  [.accept sampleContract .one sampleReading, .release 0, .accept sampleContract .one nextReading, .release 0]

theorem egress_pacing_sample :
    ((admissions .empty pacedRun).filter fun a => a.contractHash = sampleContract).Pairwise
      fun a b => Apart b.rps a.now b.now := by
  have hchron : Chronological pacedRun := by
    rw [Chronological, show pacedRun.filterMap Call.reading? = [sampleReading, nextReading] from rfl]
    exact List.pairwise_pair.mpr (by decide +kernel)
  have hnumber : Binary64.one ≠ .nan := Binary64.ofRatio_ne_nan _ _ _
  have hroom : ¬ maxRateKeys ≤
      ((Transport.empty.step (.accept sampleContract .one sampleReading)).step (.release 0)).slots.lastRequestAt.size := by
    decide +kernel
  refine (egress_pacing sampleContract pacedRun).2 hchron ⟨⟨fun _ => hnumber, fun h => ?_⟩, trivial, ⟨fun _ => hnumber, fun h => ?_⟩,
    trivial, trivial⟩
  · exact absurd h.2 (by decide)
  · exact absurd h.2 hroom

/-! ## A full table -/

/-- A contract that sends one request, with one request a second. -/
def oneRequest (c : String) : List Call := [.accept c .one sampleReading, .release 0]

theorem recip_one : recip .one = some .one := by decide +kernel

/-- No request is in flight. -/
structure Idle (t : Transport) : Prop where
  inflight : t.slots.inflight = ∅
  flying : t.flying = []

/-- In an idle transport the oldest contract makes room. -/
theorem stale?_of_idle (h : Idle t) : stale? t.slots = t.slots.lastRequestAt.keys.head? := by
  unfold stale?
  rw [h.inflight]
  cases t.slots.lastRequestAt.keys with
  | nil => rfl
  | cons first rest => simp

/-- A contract that is new to an idle transport is admitted. -/
theorem idle_request (h : Idle t) (hnew : c ∉ t.slots.lastRequestAt.keys) :
    ∃ table, makeRoom t.slots c = some table ∧ admissions t (oneRequest c) = [⟨c, .one, sampleReading⟩] ∧
      t.after (oneRequest c) = ⟨⟨table.setLast c sampleReading, ∅⟩, []⟩ := by
  obtain ⟨table, htable⟩ : ∃ table, makeRoom t.slots c = some table := by
    unfold makeRoom
    split
    · rename_i hcrowded
      have hne : t.slots.lastRequestAt.keys ≠ [] := by
        intro hnil
        have hfull := hcrowded.2
        rw [Dict.size_eq_length_keys, hnil] at hfull
        exact absurd hfull (by decide)
      rw [stale?_of_idle h, List.head?_eq_some_head hne]
      exact ⟨_, rfl⟩
    · exact ⟨_, rfl⟩
  have hremaining : remaining? t.slots c .one sampleReading = none := by
    rw [remaining?, Dict.get?_eq_none.mpr hnew]
  have hacquire : acquireRequestSlot t.slots c .one sampleReading =
      (.ok (), ⟨table.setLast c sampleReading, insert c t.slots.inflight⟩) := by
    rw [acquireRequestSlot, recip_one]
    dsimp only
    rw [if_neg (by rw [h.inflight]; exact Finset.notMem_empty c), hremaining]
    dsimp only
    rw [htable]
  have hstep : t.step (.accept c .one sampleReading) = ⟨⟨table.setLast c sampleReading, {c}⟩, [c]⟩ := by
    rw [Transport.step, hacquire]
    dsimp only
    rw [h.inflight, h.flying]
    rfl
  have hadmission : admission t (.accept c .one sampleReading) = some ⟨c, .one, sampleReading⟩ := by
    rw [admission, hacquire]
  have hrelease : (t.step (.accept c .one sampleReading)).step (.release 0) = ⟨⟨table.setLast c sampleReading, ∅⟩, []⟩ := by
    rw [hstep]
    show (⟨⟨table.setLast c sampleReading, ({c} : Finset String).erase c⟩, []⟩ : Transport) = _
    simp
  refine ⟨table, htable, ?_, hrelease⟩
  rw [oneRequest, admissions, hadmission]
  rfl

/-- The run of requests of several contracts. -/
def requests (cs : List String) : List Call := cs.flatMap oneRequest

theorem after_append (t : Transport) (as bs : List Call) : t.after (as ++ bs) = (t.after as).after bs := by
  induction as generalizing t with
  | nil => rfl
  | cons call as ih => exact ih (t.step call)

theorem admissions_append (t : Transport) (as bs : List Call) :
    admissions t (as ++ bs) = admissions t as ++ admissions (t.after as) bs := by
  induction as generalizing t with
  | nil => rfl
  | cons call as ih =>
    rw [List.cons_append, admissions, ih, admissions, List.append_assoc]
    rfl

/-- As long as there is room, every new contract is added at the end. -/
theorem requests_room (h : Idle t) {cs : List String} (hnodup : (t.slots.lastRequestAt.keys ++ cs).Nodup)
    (hroom : t.slots.lastRequestAt.size + cs.length ≤ maxRateKeys) :
    Idle (t.after (requests cs)) ∧ (t.after (requests cs)).slots.lastRequestAt.keys = t.slots.lastRequestAt.keys ++ cs := by
  induction cs generalizing t with
  | nil => exact ⟨h, (List.append_nil _).symm⟩
  | cons c cs ih =>
    have hnew : c ∉ t.slots.lastRequestAt.keys := by
      intro hmem
      exact (List.nodup_append.mp hnodup).2.2 _ hmem _ List.mem_cons_self rfl
    obtain ⟨table, htable, -, hafter⟩ := idle_request h hnew
    have hsame : table = t.slots.lastRequestAt := by
      have hnot : ¬ Crowded t.slots c := fun hcrowded => by
        have hfull := hcrowded.2
        rw [List.length_cons] at hroom
        omega
      rw [makeRoom, if_neg hnot] at htable
      exact (Option.some.inj htable).symm
    subst hsame
    have hkeys : (t.slots.lastRequestAt.setLast c sampleReading).keys = t.slots.lastRequestAt.keys ++ [c] :=
      Dict.keys_setLast_of_not_mem hnew
    have hsize : (t.slots.lastRequestAt.setLast c sampleReading).size = t.slots.lastRequestAt.size + 1 := by
      rw [Dict.size_eq_length_keys, hkeys, Dict.size_eq_length_keys, List.length_append, List.length_singleton]
    have hnext := ih (t := t.after (oneRequest c)) (by rw [hafter]; exact ⟨rfl, rfl⟩)
      (by rw [hafter]; dsimp only; rw [hkeys, List.append_assoc]; exact hnodup)
      (by rw [hafter]; dsimp only; rw [hsize]; rw [List.length_cons] at hroom; omega)
    rw [requests, List.flatMap_cons, after_append]
    refine ⟨hnext.1, hnext.2.trans ?_⟩
    rw [hafter]
    dsimp only
    rw [hkeys, List.append_assoc]
    rfl

/-- When there is none, a new contract takes the place of the oldest one. -/
theorem request_crowded (h : Idle t) {oldest : String} {rest : List String} (hcrowded : Crowded t.slots c)
    (hkeys : t.slots.lastRequestAt.keys = oldest :: rest) (hne : oldest ≠ c) :
    Idle (t.after (oneRequest c)) ∧ oldest ∉ (t.after (oneRequest c)).slots.lastRequestAt.keys := by
  obtain ⟨table, htable, -, hafter⟩ := idle_request h hcrowded.1
  rw [makeRoom, if_pos hcrowded, stale?_of_idle h, hkeys] at htable
  have herase : t.slots.lastRequestAt.erase oldest = table := Option.some.inj htable
  rw [hafter, ← herase]
  refine ⟨⟨rfl, rfl⟩, ?_⟩
  dsimp only
  rw [← Dict.get?_eq_none, Dict.get?_setLast, if_neg hne]
  exact Dict.get?_erase_self

theorem requests_append (as bs : List String) : requests (as ++ bs) = requests as ++ requests bs := List.flatMap_append

theorem requests_singleton (c : String) : requests [c] = oneRequest c := List.append_nil _

/-- A contract is forgotten once a full table of others has come after it. -/
theorem admissions_forgotten {last : String} {others : List String} (hnodup : (c :: (others ++ [last])).Nodup)
    (hfull : others.length + 1 = maxRateKeys) :
    ∃ between, admissions .empty (requests (c :: others ++ [last] ++ [c])) =
      ⟨c, .one, sampleReading⟩ :: (between ++ [⟨c, .one, sampleReading⟩]) := by
  have hidle : Idle .empty := ⟨rfl, rfl⟩
  have hfront : (c :: others).Nodup := by
    rw [← List.cons_append] at hnodup
    exact (List.nodup_append.mp hnodup).1
  have hlast : last ∉ c :: others := by
    rw [← List.cons_append] at hnodup
    exact fun hmem => (List.nodup_append.mp hnodup).2.2 _ hmem _ List.mem_cons_self rfl
  have hnew : (Transport.empty.slots.lastRequestAt.keys ++ (c :: others)).Nodup := by
    simpa [Transport.empty, Dict.keys, Dict.empty] using hfront
  obtain ⟨hidle₁, hkeys₁⟩ := requests_room hidle hnew
    (show 0 + (others.length + 1) ≤ maxRateKeys by omega)
  have hkeys : (Transport.empty.after (requests (c :: others))).slots.lastRequestAt.keys = c :: others := hkeys₁
  have hcrowded : Crowded (Transport.empty.after (requests (c :: others))).slots last := by
    refine ⟨by rw [hkeys]; exact hlast, ?_⟩
    rw [Dict.size_eq_length_keys, hkeys, List.length_cons]
    omega
  obtain ⟨hidle₂, hgone⟩ := request_crowded hidle₁ hcrowded hkeys fun h => hlast (h ▸ List.mem_cons_self)
  obtain ⟨-, -, hsecond, -⟩ := idle_request hidle₂ hgone
  obtain ⟨-, -, hfirst, -⟩ := idle_request hidle (c := c) (by simp [Transport.empty, Dict.keys, Dict.empty])
  have hsplit : requests (c :: others ++ [last] ++ [c]) =
      (oneRequest c ++ requests (others ++ [last])) ++ oneRequest c := by
    rw [requests_append, requests_singleton, List.cons_append]
    rfl
  have hafter : Transport.empty.after (oneRequest c ++ requests (others ++ [last])) =
      (Transport.empty.after (requests (c :: others))).after (oneRequest last) := by
    rw [← after_append, requests_append, requests_singleton, ← List.append_assoc]
    rfl
  rw [hsplit, admissions_append, hafter, hsecond, admissions_append, hfirst]
  exact ⟨_, rfl⟩

/-- The digits of a number in base two, as a hash. -/
def contractHash (i : Nat) : String := String.ofList ((List.range 64).map fun k => if i.testBit k then '1' else '0')

theorem contractHash_injective {i j : Nat} (hi : i < 2 ^ 64) (hj : j < 2 ^ 64) (h : contractHash i = contractHash j) : i = j := by
  have hlist := String.ofList_inj.mp h
  refine Nat.eq_of_testBit_eq fun k => ?_
  by_cases hk : k < 64
  · have hdigit := List.map_inj_left.mp hlist k (List.mem_range.mpr hk)
    by_cases hbit : i.testBit k
    · rw [if_pos hbit] at hdigit
      split at hdigit
      · rename_i hbit'
        rw [hbit, hbit']
      · exact absurd hdigit (by decide)
    · rw [if_neg hbit] at hdigit
      split at hdigit
      · exact absurd hdigit (by decide)
      rename_i hbit'
      rw [Bool.not_eq_true] at hbit hbit'
      rw [hbit, hbit']
  · have hle : 2 ^ 64 ≤ 2 ^ k := Nat.pow_le_pow_right (by decide) (not_lt.mp hk)
    rw [Nat.testBit_lt_two_pow (hi.trans_le hle), Nat.testBit_lt_two_pow (hj.trans_le hle)]

theorem contractHash_ne_sample (i : Nat) : contractHash i ≠ sampleContract := by
  intro h
  have hlist := congrArg (·.head?) (String.ofList_inj.mp h)
  rw [show (List.replicate 64 'f').head? = some 'f' from rfl] at hlist
  have hhead : (if i.testBit 0 then '1' else '0') = 'f' := Option.some.inj hlist
  split at hhead
  · exact absurd hhead (by decide)
  exact absurd hhead (by decide)

/-- A contract sends a request, 4096 others send one each, and it sends another one, all at the same reading. -/
def crowdedRun : List Call := requests (sampleContract :: (List.range 4096).map contractHash ++ [sampleContract])

theorem map_contractHash : (List.range 4096).map contractHash = (List.range 4095).map contractHash ++ [contractHash 4095] := by
  rw [List.range_succ, List.map_append, List.map_singleton]

theorem nodup_crowded : (sampleContract :: ((List.range 4095).map contractHash ++ [contractHash 4095])).Nodup := by
  rw [← map_contractHash]
  refine List.nodup_cons.mpr ⟨fun hmem => ?_, List.nodup_range.map_on fun i hi j hj h => ?_⟩
  · obtain ⟨i, -, hi⟩ := List.mem_map.mp hmem
    exact contractHash_ne_sample i hi
  · have hi' := List.mem_range.mp hi
    have hj' := List.mem_range.mp hj
    exact contractHash_injective (by omega) (by omega) h

theorem chronological_requests (cs : List String) : Chronological (requests cs) := by
  have hall : ∀ r ∈ (requests cs).filterMap Call.reading?, r = sampleReading := by
    intro r hr
    obtain ⟨call, hcall, hreading⟩ := List.mem_filterMap.mp hr
    obtain ⟨c, -, hc⟩ := List.mem_flatMap.mp hcall
    rcases List.mem_cons.mp hc with rfl | hc
    · exact (Option.some.inj hreading).symm
    · rw [List.mem_singleton.mp hc] at hreading
      cases hreading
  refine List.pairwise_of_forall_mem_list fun a ha b hb => ?_
  rw [hall a ha, hall b hb]

theorem not_apart_one : ¬ Apart .one sampleReading sampleReading := by
  rintro ⟨interval, hinterval, hle⟩
  rw [recip_one] at hinterval
  rw [← Option.some.inj hinterval] at hle
  exact absurd hle (by decide +kernel)

/-- A request that is admitted twice at one reading is not apart from itself. -/
theorem not_pairwise_twice {a : Admission} {between : List Admission} (hc : a.contractHash = c)
    (h : ¬ Apart a.rps a.now a.now) :
    ¬ (((a :: (between ++ [a])).filter fun b => b.contractHash = c).Pairwise fun a b => Apart b.rps a.now b.now) := by
  intro hpairwise
  rw [List.filter_cons_of_pos (by simp [hc]), List.filter_append] at hpairwise
  exact h ((List.pairwise_cons.mp hpairwise).1 a (List.mem_append_right _ (by simp [hc])))

/-- The contract is admitted twice at one reading of the clock, with one request a second. -/
theorem pacing_forgotten : Chronological crowdedRun ∧
    ¬ (((admissions .empty crowdedRun).filter fun a => a.contractHash = sampleContract).Pairwise
      fun a b => Apart b.rps a.now b.now) := by
  refine ⟨chronological_requests _, ?_⟩
  obtain ⟨between, hadmissions⟩ := admissions_forgotten nodup_crowded (by rw [List.length_map, List.length_range]; rfl)
  rw [crowdedRun, map_contractHash, ← List.cons_append, hadmissions]
  refine not_pairwise_twice rfl ?_
  dsimp only
  exact not_apart_one

end Egress

end XbowPerso
