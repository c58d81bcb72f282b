import XbowPerso.AffectedVersionRange

/-!
# What is cleared was excluded

Whether a range can be parsed does not depend on the version it is compared with. A version is cleared when each parsed range excludes
it; a range that cannot be parsed, or comes after the sixteenth, does not count.
-/

namespace XbowPerso

namespace AffectedVersionRange

variable {x : Input}

/-- A range is parsed. -/
def Parses (r : String) : Prop := ∃ b, rangeMatches (List.replicate 6 0) r = .ok (some b)

/-- Comparing with a range raises nothing. -/
def Readable (r : String) : Prop := ∃ o, rangeMatches (List.replicate 6 0) r = .ok o

/-- A text is a version. -/
def IsVersion (raw : String) : Prop := ∃ v, versionTuple raw.toList = .ok (some v)

/-- A range was parsed, and it does not hold the version. -/
def Excludes (r raw : String) : Prop := ∃ v, versionTuple raw.toList = .ok (some v) ∧ rangeMatches v r = .ok (some false)

/-! ## Parsing does not depend on the version -/

/-- Two computations of one shape: both raise the same, or both return. -/
theorem map_eq_cases {ε α β γ : Type} {a : Except ε α} {b : Except ε β} {f : α → γ} {g : β → γ} (h : a.map f = b.map g) :
    (∃ e, a = .error e ∧ b = .error e) ∨ ∃ o o', a = .ok o ∧ b = .ok o' ∧ f o = g o' := by
  cases a with
  | error e =>
    cases b with
    | error e' => exact .inl ⟨e, rfl, congrArg Except.error (Except.error.inj h).symm⟩
    | ok o' => cases h
  | ok o =>
    cases b with
    | error e' => cases h
    | ok o' => exact .inr ⟨o, o', rfl, rfl, Except.ok.inj h⟩

theorem clauseMatches_isSome (v w : Version) (clause : List Char) :
    (clauseMatches v clause).map Option.isSome = (clauseMatches w clause).map Option.isSome := by
  unfold clauseMatches
  cases readClause clause with
  | error e => rfl
  | ok parsed => cases parsed <;> rfl

theorem outcomes_isSome (v w : Version) (clauses : List (List Char)) :
    (outcomes v clauses).map (List.map Option.isSome) = (outcomes w clauses).map (List.map Option.isSome) := by
  induction clauses with
  | nil => rfl
  | cons clause rest ih =>
    rw [outcomes, outcomes]
    rcases map_eq_cases (clauseMatches_isSome v w clause) with ⟨e, hv, hw⟩ | ⟨o, o', hv, hw, ho⟩
    · rw [hv, hw]
    rcases map_eq_cases ih with ⟨e, hrv, hrw⟩ | ⟨found, found', hrv, hrw, hfound⟩
    · rw [hv, hw, hrv, hrw]
    · rw [hv, hw, hrv, hrw]
      show Except.ok (o.isSome :: found.map Option.isSome) = Except.ok (o'.isSome :: found'.map Option.isSome)
      rw [ho, hfound]

theorem any_isNone (found : List (Option Bool)) : found.any Option.isNone = (found.map Option.isSome).any (!·) := by
  rw [List.any_map]
  refine congrArg (found.any ·) (funext fun o => ?_)
  cases o <;> rfl

theorem rangeMatches_isSome (v w : Version) (r : String) :
    (rangeMatches v r).map Option.isSome = (rangeMatches w r).map Option.isSome := by
  have hout := outcomes_isSome v w ((r.toList.splitOn ',').map PyText.stripChars)
  unfold rangeMatches
  simp only
  split
  · rfl
  · rcases map_eq_cases hout with ⟨e, hv, hw⟩ | ⟨found, found', hv, hw, hfound⟩
    · rw [hv, hw]
    · rw [hv, hw]
      have hnone : found.any Option.isNone = found'.any Option.isNone := by rw [any_isNone, any_isNone, hfound]
      by_cases h : found'.any Option.isNone = true
      · simp only [hnone, if_pos h]
      · simp only [hnone, if_neg h]
        rfl

theorem parses_iff (v : Version) (r : String) : Parses r ↔ ∃ b, rangeMatches v r = .ok (some b) := by
  unfold Parses
  rcases map_eq_cases (rangeMatches_isSome (List.replicate 6 0) v r) with ⟨e, h₀, hv⟩ | ⟨o, o', h₀, hv, heq⟩
  · rw [h₀, hv]
  · rw [h₀, hv]
    cases o with
    | none =>
      cases o' with
      | none => exact ⟨fun ⟨_, h⟩ => (nomatch h), fun ⟨_, h⟩ => (nomatch h)⟩
      | some b => cases heq
    | some b =>
      cases o' with
      | none => cases heq
      | some b' => exact ⟨fun _ => ⟨b', rfl⟩, fun _ => ⟨b, rfl⟩⟩

/-! ## The loops -/

theorem probe_ok {l parseable unparseable : List String} (h : probe l = .ok (parseable, unparseable)) :
    (∀ r ∈ l, Readable r) ∧ ∀ r, r ∈ parseable ↔ r ∈ l ∧ Parses r := by
  induction l generalizing parseable unparseable with
  | nil =>
    cases h
    exact ⟨fun r hr => absurd hr List.not_mem_nil, fun r => by simp⟩
  | cons e rest ih =>
    rw [probe] at h
    cases ho : rangeMatches (List.replicate 6 0) e with
    | error err =>
      rw [ho] at h
      cases h
    | ok o =>
      cases hrest : probe rest with
      | error err =>
        rw [ho, hrest] at h
        cases h
      | ok found =>
        obtain ⟨p, u⟩ := found
        rw [ho, hrest] at h
        obtain ⟨hread, hmem⟩ := ih hrest
        refine ⟨fun r hr => ?_, fun r => ?_⟩
        · rcases List.mem_cons.mp hr with rfl | hr
          · exact ⟨o, ho⟩
          · exact hread r hr
        · rw [List.mem_cons]
          cases o with
          | none =>
            have hp : p = parseable := (Prod.mk.inj (Except.ok.inj h)).1
            have hnot : ¬ Parses e := by
              rintro ⟨b, hb⟩
              rw [ho] at hb
              cases Except.ok.inj hb
            rw [← hp, hmem r]
            refine ⟨fun hr => ⟨.inr hr.1, hr.2⟩, fun hr => ⟨?_, hr.2⟩⟩
            exact hr.1.resolve_left fun heq => hnot (heq ▸ hr.2)
          | some b =>
            have hp : e :: p = parseable := (Prod.mk.inj (Except.ok.inj h)).1
            rw [← hp, List.mem_cons, hmem r]
            constructor
            · rintro (rfl | hr)
              · exact ⟨.inl rfl, b, ho⟩
              · exact ⟨.inr hr.1, hr.2⟩
            · rintro ⟨rfl | hr, hparses⟩
              · exact .inl rfl
              · exact .inr ⟨hr, hparses⟩

theorem probe_of_readable {l : List String} (h : ∀ r ∈ l, Readable r) : ∃ parseable unparseable, probe l = .ok (parseable, unparseable) := by
  induction l with
  | nil => exact ⟨[], [], rfl⟩
  | cons e rest ih =>
    obtain ⟨o, ho⟩ := h e List.mem_cons_self
    obtain ⟨p, u, hrest⟩ := ih fun r hr => h r (List.mem_cons_of_mem e hr)
    rw [probe, ho, hrest]
    cases o with
    | none => exact ⟨p, e :: u, rfl⟩
    | some b => exact ⟨e :: p, u, rfl⟩

/-- Some of the ranges holds the version. -/
def Holds (v : Version) (l : List String) : Prop := ∃ r ∈ l, rangeMatches v r = .ok (some true)

theorem anyMatches_spec (v : Version) {l : List String} (h : ∀ r ∈ l, Parses r) :
    anyMatches v l = .ok true ∧ Holds v l ∨ anyMatches v l = .ok false ∧ ∀ r ∈ l, rangeMatches v r = .ok (some false) := by
  induction l with
  | nil => exact .inr ⟨rfl, fun r hr => absurd hr List.not_mem_nil⟩
  | cons e rest ih =>
    obtain ⟨b, hb⟩ := (parses_iff v e).mp (h e List.mem_cons_self)
    rw [anyMatches, hb]
    cases b with
    | true => exact .inl ⟨if_pos rfl, e, List.mem_cons_self, hb⟩
    | false =>
      simp only [Option.some.injEq, Bool.false_eq_true, if_false]
      rcases ih fun r hr => h r (List.mem_cons_of_mem e hr) with ⟨hany, r, hr, hmatch⟩ | ⟨hany, hall⟩
      · exact .inl ⟨hany, r, List.mem_cons_of_mem e hr, hmatch⟩
      · refine .inr ⟨hany, fun r hr => ?_⟩
        rcases List.mem_cons.mp hr with rfl | hr
        · exact hb
        · exact hall r hr

/-- What the loop over the versions has collected. -/
structure Collected (parseable observed : List String) (c : Compared) : Prop where
  versions : c.unparseableObserved = false → ∀ raw ∈ observed, IsVersion raw
  excluded : c.matching = [] → ∀ raw ∈ observed, ∀ v, versionTuple raw.toList = .ok (some v) →
    ∀ r ∈ parseable, rangeMatches v r = .ok (some false)

theorem compareVersions_ok {parseable observed : List String} {c : Compared} (hp : ∀ r ∈ parseable, Parses r)
    (h : compareVersions parseable observed = .ok c) : Collected parseable observed c := by
  induction observed generalizing c with
  | nil => exact ⟨fun _ _ hraw => absurd hraw List.not_mem_nil, fun _ _ hraw => absurd hraw List.not_mem_nil⟩
  | cons raw rest ih =>
    rw [compareVersions] at h
    cases hrest : compareVersions parseable rest with
    | error e =>
      rw [hrest] at h
      split at h
      · cases h
      · cases h
      · split at h <;> cases h
    | ok c' =>
      obtain ⟨hversions, hexcluded⟩ := ih hrest
      cases ht : versionTuple raw.toList with
      | error e =>
        rw [ht] at h
        cases h
      | ok parsed =>
        rw [ht, hrest] at h
        cases parsed with
        | none =>
          cases h
          refine ⟨fun hfalse => absurd (show true = false from hfalse) (by decide), fun hnone raw' hraw' v hv => ?_⟩
          rcases List.mem_cons.mp hraw' with rfl | hraw'
          · rw [ht] at hv
            cases hv
          · exact hexcluded hnone raw' hraw' v hv
        | some v =>
          rcases anyMatches_spec v hp with ⟨hany, -⟩ | ⟨hany, hall⟩
          · simp only [hany] at h
            cases h
            refine ⟨fun hfalse raw' hraw' => ?_, fun hnone => absurd hnone (List.cons_ne_nil _ _)⟩
            rcases List.mem_cons.mp hraw' with rfl | hraw'
            · exact ⟨v, ht⟩
            · exact hversions hfalse raw' hraw'
          · simp only [hany] at h
            have hc : c = if parseable = [] then c' else { c' with outside := raw :: c'.outside } := (Except.ok.inj h).symm
            have hflag : c.unparseableObserved = c'.unparseableObserved := by rw [hc]; split <;> rfl
            have hmatching : c.matching = c'.matching := by rw [hc]; split <;> rfl
            refine ⟨fun hfalse raw' hraw' => ?_, fun hnone raw' hraw' w hw => ?_⟩
            · rcases List.mem_cons.mp hraw' with rfl | hraw'
              · exact ⟨v, ht⟩
              · exact hversions (hflag ▸ hfalse) raw' hraw'
            · rcases List.mem_cons.mp hraw' with rfl | hraw'
              · rw [ht] at hw
                cases hw
                exact hall
              · exact hexcluded (hmatching ▸ hnone) raw' hraw' w hw

/-- When every version is one and every range excludes it, each version is outside. -/
theorem compareVersions_excluded {parseable observed : List String} (hne : parseable ≠ []) (hp : ∀ r ∈ parseable, Parses r)
    (h : ∀ raw ∈ observed, ∀ r ∈ parseable, Excludes r raw) : compareVersions parseable observed = .ok ⟨[], observed, false⟩ := by
  induction observed with
  | nil => rfl
  | cons raw rest ih =>
    obtain ⟨r, hr⟩ := List.exists_mem_of_ne_nil _ hne
    obtain ⟨v, hv, -⟩ := h raw List.mem_cons_self r hr
    have hrest := ih fun raw' hraw' => h raw' (List.mem_cons_of_mem raw hraw')
    rcases anyMatches_spec v hp with ⟨-, r', hr', hmatch⟩ | ⟨hany, -⟩
    · obtain ⟨w, hw, hexcludes⟩ := h raw List.mem_cons_self r' hr'
      rw [hv] at hw
      cases hw
      rw [hmatch] at hexcludes
      cases hexcludes
    · rw [compareVersions, hv, hrest]
      simp only [hany, Except.map, if_neg hne]

/-! ## When a version is cleared -/

/-- The comparison was made, and each parsed range excludes each observed version. -/
structure Cleared (x : Input) : Prop where
  cve : x.cveIds.length = 1
  readable : ∀ r ∈ x.ranges, Readable r
  parsed : ∃ r ∈ x.ranges, Parses r
  observed : x.observed ≠ []
  excluded : ∀ raw ∈ x.observed, ∀ r ∈ x.ranges, Parses r → Excludes r raw

theorem Cleared.of_state {e : Evidence} (h : buildAffectedVersionRangeEvidence x = .ok e) (hstate : e.state = .notAffected) :
    Cleared x := by
  rw [buildAffectedVersionRangeEvidence] at h
  by_cases hranges : x.ranges = []
  · rw [if_pos hranges] at h
    cases h
    cases hstate
  rw [if_neg hranges] at h
  by_cases hcve : x.cveIds.length ≠ 1
  · rw [if_pos hcve] at h
    split at h
    · cases h
      cases hstate
    cases h
    cases hstate
  rw [if_neg hcve] at h
  cases hprobe : probe x.ranges with
  | error err =>
    rw [hprobe] at h
    cases h
  | ok found =>
    obtain ⟨parseable, unparseable⟩ := found
    obtain ⟨hread, hmem⟩ := probe_ok hprobe
    cases hcompare : compareVersions parseable x.observed with
    | error err =>
      rw [hprobe] at h
      simp only [hcompare] at h
      cases h
    | ok c =>
      rw [hprobe] at h
      simp only [hcompare] at h
      cases h
      have hstate : stateOf x.observed parseable c = .notAffected := hstate
      rw [stateOf] at hstate
      by_cases hunknown : x.observed = [] ∨ c.unparseableObserved = true ∨ parseable = []
      · rw [if_pos hunknown] at hstate
        cases hstate
      rw [if_neg hunknown] at hstate
      simp only [not_or, Bool.not_eq_true] at hunknown
      have hmatching : c.matching = [] := by
        by_contra hne
        by_cases hout : c.outside ≠ []
        · rw [if_pos ⟨hne, hout⟩] at hstate
          cases hstate
        · rw [if_neg fun hboth => hout hboth.2, if_pos hne] at hstate
          cases hstate
      obtain ⟨hversions, hexcluded⟩ := compareVersions_ok (fun r hr => ((hmem r).mp hr).2) hcompare
      obtain ⟨r, hr⟩ := List.exists_mem_of_ne_nil _ hunknown.2.2
      refine ⟨not_not.mp hcve, hread, ⟨r, (hmem r).mp hr⟩, hunknown.1, fun raw hraw r hr hparses => ?_⟩
      obtain ⟨v, hv⟩ := hversions hunknown.2.1 raw hraw
      exact ⟨v, hv, hexcluded hmatching raw hraw v hv r ((hmem r).mpr ⟨hr, hparses⟩)⟩

theorem Cleared.state (h : Cleared x) : ∃ e, buildAffectedVersionRangeEvidence x = .ok e ∧ e.state = .notAffected := by
  obtain ⟨parseable, unparseable, hprobe⟩ := probe_of_readable h.readable
  obtain ⟨-, hmem⟩ := probe_ok hprobe
  obtain ⟨r, hr, hparses⟩ := h.parsed
  have hne : parseable ≠ [] := List.ne_nil_of_mem ((hmem r).mpr ⟨hr, hparses⟩)
  have hcompare := compareVersions_excluded hne (fun r hr => ((hmem r).mp hr).2) fun raw hraw r hr =>
    h.excluded raw hraw r ((hmem r).mp hr).1 ((hmem r).mp hr).2
  rw [buildAffectedVersionRangeEvidence, if_neg (List.ne_nil_of_mem hr), if_neg (not_not.mpr h.cve), hprobe]
  simp only [hcompare]
  refine ⟨_, rfl, ?_⟩
  show stateOf x.observed parseable ⟨[], x.observed, false⟩ = .notAffected
  rw [stateOf, if_neg (by simp [h.observed, hne]), if_neg (by simp), if_neg (by simp), if_pos h.observed]

/-! ## The declared ranges -/

/-- The ranges of the declaration, and those that come after the sixteenth item. -/
def declared (x : Input) : List String := Input.stripped x.rawRanges

def beyond (x : Input) : List String := Input.stripped (x.rawRanges.drop 16)

theorem mem_declared {r : String} : r ∈ declared x ↔ r ∈ x.ranges ∨ r ∈ beyond x := by
  have hsplit : declared x = x.ranges ++ beyond x := by
    unfold declared Input.ranges beyond Input.stripped
    rw [← List.filter_append, ← List.map_append, List.take_append_drop]
  rw [hsplit, List.mem_append]

/-- A product is not affected only if each declared range was parsed and excludes each observed version. -/
def SafeAnswer (x : Input) : Prop :=
  ∀ e, buildAffectedVersionRangeEvidence x = .ok e → e.state = .notAffected →
    ∀ r ∈ declared x, ∀ raw ∈ x.observed, Excludes r raw

/-- The answer is safe if and only if, where the parsed ranges of the first sixteen exclude every version, all of these are parsed and
those after them exclude every version as well. -/
theorem safeAnswer_iff (x : Input) :
    SafeAnswer x ↔ (Cleared x → (∀ r ∈ x.ranges, Parses r) ∧ ∀ r ∈ beyond x, ∀ raw ∈ x.observed, Excludes r raw) := by
  constructor
  · intro hsafe hcleared
    obtain ⟨e, he, hstate⟩ := hcleared.state
    have hall := hsafe e he hstate
    obtain ⟨raw, hraw⟩ := List.exists_mem_of_ne_nil _ hcleared.observed
    refine ⟨fun r hr => ?_, fun r hr => hall r (mem_declared.mpr (.inr hr))⟩
    obtain ⟨v, -, hexcludes⟩ := hall r (mem_declared.mpr (.inl hr)) raw hraw
    exact (parses_iff v r).mpr ⟨false, hexcludes⟩
  · intro h e he hstate r hr raw hraw
    have hcleared := Cleared.of_state he hstate
    obtain ⟨hparses, hbeyond⟩ := h hcleared
    rcases mem_declared.mp hr with hr | hr
    · exact hcleared.excluded raw hraw r hr (hparses r hr)
    · exact hbeyond r hr raw hraw

/-! ## A range that is not parsed -/

/-- Two ranges, of which only the first is one, and a version above the first. -/
def sampleInput : Input where
  findingId := "finding-1"
  affectedVersionRanges := .items ["<2", "before 5.1.3 except vendor build"]
  affectedVersionRangeSource := "vendor"
  affectedVersionRangeVerified := none
  cveIds := ["CVE-2026-1111"]
  observedVersions := ["5.1.2"]
  rangesOverride := none
  rangeSourceOverride := none
  rangeSourceVerifiedOverride := none

/-- The version is cleared although one of its ranges was never compared. -/
theorem cleared_by_part : ¬ SafeAnswer sampleInput := by
  intro h
  have hanswer : (buildAffectedVersionRangeEvidence sampleInput).map Evidence.state = .ok .notAffected := by decide +kernel
  cases hbuild : buildAffectedVersionRangeEvidence sampleInput with
  | error e =>
    rw [hbuild] at hanswer
    cases hanswer
  | ok e =>
    rw [hbuild] at hanswer
    obtain ⟨v, -, hexcludes⟩ := h e hbuild (Except.ok.inj hanswer) "before 5.1.3 except vendor build" (by decide +kernel) "5.1.2"
      (by decide +kernel)
    have hnone : rangeMatches (List.replicate 6 0) "before 5.1.3 except vendor build" = .ok none := by decide +kernel
    obtain ⟨b, hb⟩ := (parses_iff v _).mpr ⟨false, hexcludes⟩
    rw [hnone] at hb
    cases Except.ok.inj hb

end AffectedVersionRange

end XbowPerso
