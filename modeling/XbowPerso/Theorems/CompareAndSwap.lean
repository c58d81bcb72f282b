import XbowPerso.Storage

/-!
# No lost update

Clients that load a campaign, compute a new document from it and save it with the version they have read: a save that succeeds was
computed from the document it replaces, moves the version up by one, and touches no other campaign; a save that is refused leaves
the store as it was.
-/

namespace XbowPerso

namespace CampaignTable

open Interleave Versioned

/-- Stored versions are positive. -/
def Sound (t : CampaignTable) : Prop := ∀ id row, t.find? id = some row → 0 < row.version

theorem sound_empty : Sound Table.empty := fun _ _ h => by cases h

/-- What a write does: it stores the document under the next version of the row it has selected, or it is refused. -/
theorem write_cases (t : CampaignTable) (w : CampaignWrite) (current : Option Int) :
    (∃ t', t.write w current = (.ok (version (record w.id t) + 1), t') ∧ version (record w.id t) = current.getD 0 ∧
      record w.id t' = some (Json.loads w.document, version (record w.id t) + 1) ∧
      ∀ id, id ≠ w.id → t'.find? id = t.find? id) ∨
    ∃ e, t.write w current = (.error e, t) := by
  cases current with
  | none =>
    simp only [write]
    cases hins : t.insert (newRow w) with
    | none => exact .inr ⟨_, rfl⟩
    | some t' =>
      have hnone : t.find? w.id = none := (t.insert_eq_some hins).2.1
      have hfind := t.find?_insert hins
      have hver : version (record w.id t) = 0 := by simp only [record, hnone]; rfl
      have hself : t'.find? w.id = some (newRow w) := (hfind w.id).trans (if_pos rfl)
      refine .inl ⟨t', ?_, hver, ?_, fun id hid => (hfind id).trans (if_neg hid)⟩
      · rw [hver, Int.zero_add]
      · rw [hver, Int.zero_add]
        simp only [record, hself]
        rfl
  | some current =>
    simp only [write]
    by_cases hcur : ∃ row, t.find? w.id = some row ∧ row.version = current
    · obtain ⟨row, hrow, rfl⟩ := hcur
      have hone := t.countP_key_eq_one (c := fun r => decide (r.version = row.version)) hrow (by simp)
      have hid : row.id = w.id := ((t.find?_eq_some _ _).mp hrow).2
      have hver : version (record w.id t) = row.version := by simp only [record, hrow]; rfl
      simp only [hone, if_true]
      refine .inl ⟨_, by rw [hver], hver, ?_, fun id hne => ?_⟩
      · simp only [record, Table.find?_update, hrow, Option.map_some, hid, decide_true, Bool.and_self, if_true, version]
        rfl
      · rw [Table.find?_update]
        cases hr : t.find? id with
        | none => rfl
        | some r =>
          have hrid : r.id ≠ w.id := by
            rw [((t.find?_eq_some _ _).mp hr).2]
            exact hne
          simp [hrid]
    · have hzero := t.countP_key_eq_zero (k := w.id) (c := fun r => decide (r.version = current))
        fun r hr => decide_eq_false fun hv => hcur ⟨r, hr, hv⟩
      simp only [hzero]
      exact .inr ⟨_, rfl⟩

/-- What a client takes for the record of a campaign. -/
def seen (base : Option (Json × Int)) : Option (Option Json × Int) := base.map fun b => (some b.1, b.2)

theorem version_seen (base : Option (Json × Int)) : version (seen base) = version base := by
  cases base <;> rfl

/-- What a step owes the campaigns. A write that succeeds stores a document which its turn has computed from the record that it
replaces, under the next version, and leaves the other campaigns alone; a write that is refused changes nothing, and neither does
any other step. -/
def SaveStep (step : StorageStep) (t t' : CampaignTable) : Prop :=
  match step with
  | .write turn _ w current =>
    t' = (t.write w current).2 ∧
    (∀ v, (t.write w current).1 = .ok v → ∃ base d,
      record turn.campaign t = seen base ∧ turn.compute base = some d ∧
      record turn.campaign t' = some (some (.obj (d.withId turn.campaign)), v) ∧
      v = version (record turn.campaign t) + 1 ∧ ∀ id, id ≠ turn.campaign → t'.find? id = t.find? id) ∧
    (∀ e, (t.write w current).1 = .error e → t' = t)
  | _ => t' = t

theorem version_nonneg {t : CampaignTable} (hs : Sound t) (id : Ident) : 0 ≤ version (record id t) := by
  cases hrow : t.find? id with
  | none =>
    have hnone : record id t = none := by simp only [record, hrow]; rfl
    rw [hnone]
    exact Int.le_refl 0
  | some row =>
    have hsome : record id t = some (Json.loads row.document, row.version) := by simp only [record, hrow]; rfl
    rw [hsome]
    exact Int.le_of_lt (hs id row hrow)

/-- What the clients rely on: a step does what it owes, keeps versions positive, and moves a record only up. -/
structure Guarantee (step : StorageStep) (t t' : CampaignTable) : Prop where
  save : SaveStep step t t'
  sound : Sound t → Sound t'
  advances : ∀ id, Advances (record id) t t'

theorem Guarantee.of_eq {step : StorageStep} {t : CampaignTable} (h : SaveStep step t t) : Guarantee step t t :=
  ⟨h, fun hs => hs, fun _ => .inl rfl⟩

/-- A step that does what it owes does the rest. -/
theorem SaveStep.guarantee {step : StorageStep} {t t' : CampaignTable} (h : SaveStep step t t') (hs : Sound t) :
    Guarantee step t t' := by
  cases step with
  | load turn =>
    cases (show t' = t from h)
    exact .of_eq rfl
  | select turn base w =>
    cases (show t' = t from h)
    exact .of_eq rfl
  | write turn base w current =>
    obtain ⟨-, hok, herr⟩ := id h
    cases hres : (t.write w current).1 with
    | error e =>
      cases herr e hres
      exact .of_eq h
    | ok v =>
      obtain ⟨_, d, -, -, hrec, hv, hother⟩ := hok v hres
      have hnonneg := version_nonneg hs turn.campaign
      refine ⟨h, fun _ => ?_, fun id => ?_⟩
      · intro id row hrow
        by_cases hid : id = turn.campaign
        · subst hid
          have hversion : row.version = v := by
            simp only [record, hrow, Option.map_some, Option.some.injEq, Prod.mk.injEq] at hrec
            exact hrec.2
          omega
        · exact hs id row ((hother id hid).symm.trans hrow)
      · by_cases hid : id = turn.campaign
        · subst hid
          right
          rw [hrec, hv]
          exact Int.lt_succ _
        · left
          simp only [record, hother id hid]

/-! ## The steps of a client -/

/-- The guarantee of every thread, and the rely of each. -/
abbrev Rely : CampaignTable → CampaignTable → Prop := Pool.AnyStep fun _ => Guarantee

theorem stable_sound : Stable Rely Sound := fun _ _ ⟨_, _, h⟩ hs => h.sound hs

theorem stable_since (campaign : Ident) (base : Option (Json × Int)) :
    Stable Rely (Since (record campaign) (seen base)) :=
  since_stable (fun _ _ ⟨_, _, h⟩ => h.advances campaign) (seen base)

/-- A document that was prepared is read back as it is stored. -/
theorem loads_prepared {cfg : StorageSettings} {d : CampaignDocument} {w : CampaignWrite} (h : d.prepare cfg = .ok w) :
    Json.loads w.document = some (.obj (d.withId w.id)) := by
  have hdoc : w.document = (Json.obj (d.withId w.id)).dumps := by
    unfold CampaignDocument.prepare at h
    split at h
    · split at h
      · cases h
      dsimp only at h
      split at h
      · cases h
      cases h
      rfl
    · cases h
  have hkeys : (d.withId w.id).map (·.1) = d.fields.map (·.1) := by
    rw [CampaignDocument.withId, List.map_map]
    refine List.map_congr_left fun f _ => ?_
    simp only [Function.comp_apply]
    split <;> rfl
  rw [hdoc]
  refine Json.loads_dumps ⟨hkeys ▸ d.distinct.1, (Json.distinctFields_iff _).mpr fun f hf => ?_⟩
  obtain ⟨g, hg, rfl⟩ := List.mem_map.mp hf
  split
  · trivial
  · exact (Json.distinctFields_iff _).mp d.distinct.2 g hg

section

variable {turn : SaveTurn} {base : Option (Json × Int)} {d : CampaignDocument} {w : CampaignWrite}

/-- A write under the version that was read replaces the record that was read. -/
theorem write_step (hc : turn.compute base = some d) (hp : d.prepare turn.settings = .ok w) {t : CampaignTable}
    {current : Option Int} (hcur : current.getD 0 = version base) (hsince : Since (record turn.campaign) (seen base) t) :
    SaveStep (.write turn base w current) t (t.write w current).2 := by
  have hid : w.id = turn.campaign := turn.same base d w hc hp
  refine ⟨rfl, fun v hv => ?_, fun e he => ?_⟩
  · rcases write_cases t w current with ⟨t', heq, hver, hrec, hother⟩ | ⟨e, heq⟩
    · rw [hid] at heq hver hrec hother
      rw [heq] at hv ⊢
      cases hv
      refine ⟨base, d, hsince.2 ?_, hc, ?_, rfl, hother⟩
      · rw [hver, hcur, version_seen]
      · rw [hrec, loads_prepared hp, hid]
    · rw [heq] at hv
      cases hv
  · rcases write_cases t w current with ⟨t', heq, -⟩ | ⟨e', heq⟩
    · rw [heq] at he
      cases he
    · rw [heq]

/-- A select that finds the version expected selects that version. -/
theorem expect_ok {t : CampaignTable} {id : Ident} {current : Option Int}
    (h : t.expect id (expectedVersion base) = .ok current) : current.getD 0 = version base := by
  unfold expect expectedVersion at h
  split at h
  · split at h
    · rename_i hexp
      cases h
      rcases hexp with hexp | hexp
      · cases hexp
      · exact (Option.some.inj hexp).symm
    · cases h
  · rename_i row hrow
    dsimp only at h
    split at h
    · rename_i hv
      cases h
      exact hv.symm
    · cases h

theorem saveSteps_valid (hc : turn.compute base = some d) (hp : d.prepare turn.settings = .ok w) :
    Valid (fun _ _ _ => True) Rely Guarantee (fun _ => Sound) (saveSteps turn base w)
      (fun t => Sound t ∧ Since (record turn.campaign) (seen base) t) := by
  refine Valid.bind (Φ := fun selected t => (∀ current, selected = .ok current → current.getD 0 = version base) ∧
      (Sound t ∧ Since (record turn.campaign) (seen base) t))
    (Valid.atomic (fun _ => (stable_const _).and (stable_sound.and (stable_since _ _))) fun _ t ht _ =>
      ⟨.of_eq rfl, fun current h => expect_ok h, ht⟩) fun selected => Valid.and_left fun hsel => ?_
  cases selected with
  | error e => exact Valid.done fun t ht => ht.1
  | ok current =>
    refine Valid.bind (Φ := fun _ => Sound) (Valid.atomic (fun _ => stable_sound) fun _ t ht _ => ?_) fun res => ?_
    · have hstep := (write_step hc hp (hsel current rfl) ht.2).guarantee ht.1
      exact ⟨hstep, hstep.sound ht.1⟩
    · cases res with
      | error e => exact Valid.done fun t ht => ht
      | ok v => exact Valid.done fun t ht => ht

end

theorem computeSteps_valid (turn : SaveTurn) (base : Option (Json × Int)) :
    Valid (fun _ _ _ => True) Rely Guarantee (fun _ => Sound) (computeSteps turn base)
      (fun t => Sound t ∧ Since (record turn.campaign) (seen base) t) := by
  cases hc : turn.compute base with
  | none =>
    simp only [computeSteps, hc]
    exact Valid.done fun t ht => ht.1
  | some d =>
    cases hp : d.prepare turn.settings with
    | error e =>
      simp only [computeSteps, hc, hp]
      exact Valid.done fun t ht => ht.1
    | ok w =>
      simp only [computeSteps, hc, hp]
      exact saveSteps_valid hc hp

/-- A creator, who has read nothing, knows as much as a reader who has found nothing. -/
theorem since_unread {t : CampaignTable} (hs : Sound t) (campaign : Ident) : Since (record campaign) (seen none) t := by
  refine since_none fun r hr => ?_
  obtain ⟨row, hrow, rfl⟩ := Option.map_eq_some_iff.mp hr
  exact hs campaign row hrow

theorem turnSteps_valid (turn : SaveTurn) :
    Valid (fun _ _ _ => True) Rely Guarantee (fun _ => Sound) (turnSteps turn) Sound := by
  unfold turnSteps
  split
  · refine Valid.bind (Φ := fun r t => Sound t ∧ ∀ base, r = seen base → Since (record turn.campaign) (seen base) t)
      (Valid.atomic (fun r => stable_sound.and fun t t' h hr base hbase => stable_since _ _ t t' h (hr base hbase))
        fun _ t ht _ => ⟨.of_eq rfl, ht, fun base hbase => ?_⟩) fun r => ?_
    · rw [← hbase]
      exact since_read t
    · match r with
      | none => exact (computeSteps_valid turn none).weaken fun t ht => ⟨ht.1, ht.2 none rfl⟩
      | some (none, v) => exact Valid.done fun t ht => ht.1
      | some (some document, v) =>
        exact (computeSteps_valid turn (some (document, v))).weaken fun t ht => ⟨ht.1, ht.2 _ rfl⟩
  · exact (computeSteps_valid turn none).weaken fun t ht => ⟨ht, since_unread ht _⟩

theorem clientSteps_valid (c : StorageClient) :
    Valid (fun _ _ _ => True) Rely Guarantee (fun _ => Sound) (clientSteps c) Sound := by
  induction c with
  | stop => exact Valid.done fun t ht => ht
  | turn t next ih => exact (turnSteps_valid t).bind fun reply => ih reply

theorem clients_safe (cs : Nat → StorageClient) :
    (clients cs).Safe (fun _ _ _ => True) (fun _ => Guarantee) (fun _ _ => Sound) :=
  fun k => ⟨Sound, stable_sound, sound_empty, clientSteps_valid (cs k)⟩

/-- A move that stores a document of a campaign. -/
def stores (campaign : Ident) (m : Move StorageStep Unit CampaignTable) : Bool :=
  match m.tag with
  | .write turn _ w current => decide (turn.campaign = campaign) && (m.before.write w current).1.isOk
  | _ => false

/-- What a step does to the version of a campaign. -/
theorem SaveStep.version_eq {m : Move StorageStep Unit CampaignTable} (h : SaveStep m.tag m.before m.after)
    (campaign : Ident) : version (record campaign m.after) =
      version (record campaign m.before) + if stores campaign m then 1 else 0 := by
  obtain ⟨thread, tag, input, t, t'⟩ := m
  cases tag with
  | load turn =>
    cases (show t' = t from h)
    exact (Int.add_zero _).symm
  | select turn base w =>
    cases (show t' = t from h)
    exact (Int.add_zero _).symm
  | write turn base w current =>
    dsimp only at h ⊢
    obtain ⟨-, hok, herr⟩ := h
    obtain ⟨res, hres⟩ : ∃ res, (t.write w current).1 = res := ⟨_, rfl⟩
    simp only [stores, hres]
    cases res with
    | error e =>
      rw [herr e hres]
      simp [Except.isOk, Except.toBool]
    | ok v =>
      obtain ⟨_, d, -, -, hrec, hv, hother⟩ := hok v hres
      by_cases hid : turn.campaign = campaign
      · subst hid
        have hone : (decide (turn.campaign = turn.campaign) && (Except.ok v : Except PyError Int).isOk) = true := by
          simp [Except.isOk, Except.toBool]
        rw [hrec, if_pos hone]
        exact hv
      · have hsame : record campaign t' = record campaign t := by
          simp only [record, hother campaign (Ne.symm hid)]
        simp [hid, hsame]

end CampaignTable

end XbowPerso
