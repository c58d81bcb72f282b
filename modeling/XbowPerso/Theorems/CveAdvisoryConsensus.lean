import XbowPerso.CveAdvisoryConsensus
import XbowPerso.Theorems.ContractRate

/-!
# A consensus needs independent sources

The evidence of an entry is told apart by the key that the evidence is sorted by, so the order of the catalogs makes no difference. All
entries that are found have one identity for each kind, and an authority counts once.
-/

namespace XbowPerso

namespace CveAdvisoryConsensus

open SortByKey (sortByKey mem_sortByKey perm_sortByKey sortByKey_eq_of_perm)

variable {cases : LetterCases} {cveId : String} {finding : Finding} {observed : Observed}

/-! ## Entries that are found -/

/-- What tells the entries of a CVE apart. -/
def Entry.identity (entry : Entry) : String × IdentityKind × Option String × Option String :=
  match entry.identityKind with
  | .cpe => (entry.cveId, .cpe, entry.vendor, entry.product)
  | .package => (entry.cveId, .package, entry.packageEcosystem, entry.packageName)

variable {catalog : Catalog} {entry : Entry}

theorem wanted_of_found (h : entry ∈ findVerified cases cveId finding catalog) :
    ∃ wanted, wanted? cases cveId finding = some wanted ∧ entry ∈ catalog.entries ∧ entry.isWanted wanted = true := by
  unfold findVerified at h
  split at h
  · cases h
  split at h
  · cases h
  rename_i wanted hwanted
  obtain ⟨hmem, hcond⟩ := List.mem_filter.mp (mem_sortByKey.mp h)
  exact ⟨wanted, hwanted, hmem, hcond⟩

variable {a : Entry}

/-- Entries of one kind that are wanted have one identity. -/
theorem identity_of_isWanted {b : Entry} {wanted : Wanted} (ha : a.isWanted wanted = true) (hb : b.isWanted wanted = true)
    (hkind : a.identityKind = b.identityKind) : a.identity = b.identity := by
  unfold Entry.isWanted at ha hb
  rw [Bool.and_eq_true, Bool.and_eq_true, decide_eq_true_eq] at ha hb
  obtain ⟨⟨-, hacve⟩, hapair⟩ := ha
  obtain ⟨⟨-, hbcve⟩, hbpair⟩ := hb
  unfold Entry.identity
  rw [← hkind] at hbpair ⊢
  rw [hacve, hbcve]
  cases hk : a.identityKind with
  | cpe =>
    simp only [hk, Option.any_eq_true, Bool.and_eq_true, decide_eq_true_eq] at hapair hbpair ⊢
    obtain ⟨p, hp, hvendor, hproduct⟩ := hapair
    obtain ⟨q, hq, hvendor', hproduct'⟩ := hbpair
    obtain rfl : p = q := Option.some.inj (hp.symm.trans hq)
    rw [hvendor, hproduct, hvendor', hproduct']
  | package =>
    simp only [hk, Option.any_eq_true, Bool.and_eq_true, decide_eq_true_eq] at hapair hbpair ⊢
    obtain ⟨p, hp, hecosystem, hname⟩ := hapair
    obtain ⟨q, hq, hecosystem', hname'⟩ := hbpair
    obtain rfl : p = q := Option.some.inj (hp.symm.trans hq)
    rw [hecosystem, hname, hecosystem', hname']

theorem cveId_of_isWanted {wanted : Wanted} (ha : a.isWanted wanted = true) : a.cveId = wanted.cveId := by
  unfold Entry.isWanted at ha
  rw [Bool.and_eq_true, Bool.and_eq_true, decide_eq_true_eq] at ha
  exact ha.1.2

/-- An identity key tells its kind. -/
theorem kind_of_identityKey {b : Entry} (h : identityKey a = identityKey b) : a.identityKind = b.identityKind := by
  have hhead := congrArg (fun s : String => s.toList.head?) h
  unfold identityKey at hhead
  cases ha : a.identityKind <;> cases hb : b.identityKind <;> simp_all [String.toList_append]

/-! ## Evidence -/

/-- An entry that is considered: one that is found in a catalog. -/
def Considered (cases : LetterCases) (cveId : String) (finding : Finding) (catalogs : List Catalog) (catalog : Catalog) (entry : Entry) :
    Prop :=
  catalog ∈ catalogs ∧ entry ∈ findVerified cases cveId finding catalog

variable {evidence : List SourceEvidence}

variable {e : SourceEvidence}

theorem mem_entriesEvidence {entries : List Entry}
    (h : entriesEvidence finding observed catalog entries = .ok evidence) :
    e ∈ evidence ↔ ∃ entry ∈ entries, evidenceOf finding observed catalog entry = .ok e := by
  induction entries generalizing evidence with
  | nil =>
    cases h
    simp
  | cons entry rest ih =>
    unfold entriesEvidence at h
    split at h
    · cases h
    rename_i mine hmine
    split at h
    · cases h
    rename_i others hothers
    cases h
    rw [List.mem_cons, ih hothers, List.exists_mem_cons_iff, hmine]
    refine or_congr ⟨fun heq => congrArg _ heq.symm, fun heq => (Except.ok.inj heq).symm⟩ Iff.rfl

/-- One turn of the loop over the catalogs. -/
theorem catalogsEvidence_cons {rest : List Catalog} :
    catalogsEvidence cases cveId finding observed (catalog :: rest) = .ok evidence ↔
      ∃ mine others, entriesEvidence finding observed catalog (findVerified cases cveId finding catalog) = .ok mine ∧
        catalogsEvidence cases cveId finding observed rest = .ok others ∧ evidence = mine ++ others := by
  rw [catalogsEvidence]
  constructor
  · intro h
    split at h
    · cases h
    rename_i mine hmine
    split at h
    · cases h
    rename_i others hothers
    cases h
    exact ⟨mine, others, hmine, hothers, rfl⟩
  · rintro ⟨mine, others, hmine, hothers, rfl⟩
    rw [hmine, hothers]

/-- The evidence is that of the entries that are considered. -/
theorem mem_catalogsEvidence {catalogs : List Catalog}
    (h : catalogsEvidence cases cveId finding observed catalogs = .ok evidence) :
    e ∈ evidence ↔
      ∃ catalog entry, Considered cases cveId finding catalogs catalog entry ∧ evidenceOf finding observed catalog entry = .ok e := by
  induction catalogs generalizing evidence with
  | nil =>
    cases h
    simp [Considered]
  | cons first rest ih =>
    obtain ⟨mine, others, hmine, hothers, rfl⟩ := catalogsEvidence_cons.mp h
    rw [List.mem_append, ih hothers, mem_entriesEvidence hmine]
    constructor
    · rintro (⟨entry, hentry, he⟩ | ⟨catalog, entry, ⟨hcatalog, hentry⟩, he⟩)
      · exact ⟨first, entry, ⟨List.mem_cons_self, hentry⟩, he⟩
      · exact ⟨catalog, entry, ⟨List.mem_cons_of_mem _ hcatalog, hentry⟩, he⟩
    · rintro ⟨catalog, entry, ⟨hcatalog, hentry⟩, he⟩
      obtain rfl | hrest := List.mem_cons.mp hcatalog
      · exact .inl ⟨entry, hentry, he⟩
      · exact .inr ⟨catalog, entry, ⟨hrest, hentry⟩, he⟩

theorem catalogsEvidence_perm {catalogs catalogs' : List Catalog} (hperm : catalogs.Perm catalogs')
    (h : catalogsEvidence cases cveId finding observed catalogs = .ok evidence) :
    ∃ evidence', catalogsEvidence cases cveId finding observed catalogs' = .ok evidence' ∧ evidence.Perm evidence' := by
  induction hperm generalizing evidence with
  | nil => exact ⟨evidence, h, .refl _⟩
  | cons catalog _ ih =>
    obtain ⟨mine, others, hmine, hothers, rfl⟩ := catalogsEvidence_cons.mp h
    obtain ⟨others', hothers', hp⟩ := ih hothers
    exact ⟨mine ++ others', catalogsEvidence_cons.mpr ⟨mine, others', hmine, hothers', rfl⟩, hp.append_left _⟩
  | swap first second rest =>
    obtain ⟨mine, others, hmine, hothers, rfl⟩ := catalogsEvidence_cons.mp h
    obtain ⟨mine', others', hmine', hothers', rfl⟩ := catalogsEvidence_cons.mp hothers
    refine ⟨mine' ++ (mine ++ others'), ?_, ?_⟩
    · exact catalogsEvidence_cons.mpr ⟨_, _, hmine', catalogsEvidence_cons.mpr ⟨_, _, hmine, hothers', rfl⟩, rfl⟩
    · rw [← List.append_assoc, ← List.append_assoc]
      exact List.perm_append_comm.append_right _
  | trans _ _ ih₁ ih₂ =>
    obtain ⟨between, hbetween, hp⟩ := ih₁ h
    obtain ⟨evidence', hevidence', hp'⟩ := ih₂ hbetween
    exact ⟨evidence', hevidence', hp.trans hp'⟩

/-- Entries that are considered give one evidence when it is sorted to one place. -/
theorem evidence_of_order {catalogs : List Catalog}
    (h : catalogsEvidence cases cveId finding observed catalogs = .ok evidence) :
    ∀ a ∈ evidence, ∀ b ∈ evidence, a.order = b.order → a = b := by
  intro a ha b hb horder
  obtain ⟨catalog, entry, ⟨-, hentry⟩, hea⟩ := (mem_catalogsEvidence h).mp ha
  obtain ⟨catalog', entry', ⟨-, hentry'⟩, heb⟩ := (mem_catalogsEvidence h).mp hb
  obtain ⟨wanted, hwanted, -, hcond⟩ := wanted_of_found hentry
  obtain ⟨wanted', hwanted', -, hcond'⟩ := wanted_of_found hentry'
  obtain rfl : wanted = wanted' := Option.some.inj (hwanted.symm.trans hwanted')
  have hcve : entry.cveId = entry'.cveId := (cveId_of_isWanted hcond).trans (cveId_of_isWanted hcond').symm
  unfold evidenceOf at hea heb
  split at hea
  · cases hea
  rename_i applicability happlicability
  split at heb
  · cases heb
  rename_i applicability' happlicability'
  cases hea
  cases heb
  simp only [SourceEvidence.order, EmbeddingLike.apply_eq_iff_eq, Prod.mk.injEq] at horder
  obtain ⟨hkey, hauthority, hname, hranges⟩ := horder
  have hkind := kind_of_identityKey hkey
  have hinput : rangeInput finding observed catalog.sourceName entry = rangeInput finding observed catalog'.sourceName entry' := by
    unfold rangeInput
    rw [hname, hkind, hranges, hcve]
  rw [hinput, happlicability'] at happlicability
  cases happlicability
  simp only [hname, hauthority, hkind, hkey, hranges]

/-! ## The order of the catalogs -/

theorem found_perm {catalogs catalogs' : List Catalog} (hperm : catalogs.Perm catalogs') :
    (found cases cveId finding catalogs).Perm (found cases cveId finding catalogs') := hperm.filter _

theorem textSet_perm {l l' : List String} (h : l.Perm l') : textSet l = textSet l' := by
  have hperm : (textSet l).Perm (textSet l') :=
    (List.perm_insertionSort _ _).trans (h.dedup.trans (List.perm_insertionSort _ _).symm)
  exact hperm.eq_of_pairwise (fun _ _ _ _ hab hba => le_antisymm hab hba) (List.pairwise_insertionSort _ _)
    (List.pairwise_insertionSort _ _)

variable {authorities : List String}

variable {instances : List (String × String × String)}

/-- Authorities and instances are taken as sets. -/
theorem conclude_perm (cveId : String) (evidence : List SourceEvidence) {authorities' : List String}
    {instances' : List (String × String × String)} (hauthorities : authorities.Perm authorities')
    (hinstances : instances.Perm instances') : conclude cveId evidence authorities instances = conclude cveId evidence authorities' instances' := by
  unfold conclude
  rw [hauthorities.dedup.length_eq, hinstances.dedup.length_eq, textSet_perm hauthorities]

variable {fingerprintVersions : List String} {packageVersion : Option String} {catalogs catalogs' : List Catalog} {r : Consensus}

theorem consensus_perm (hperm : catalogs.Perm catalogs')
    (h : buildCveAdvisoryConsensus cases finding fingerprintVersions packageVersion catalogs = .ok r) :
    buildCveAdvisoryConsensus cases finding fingerprintVersions packageVersion catalogs' = .ok r := by
  unfold buildCveAdvisoryConsensus at h ⊢
  split at h
  · rename_i cveId hids
    split at h
    · cases h
    rename_i evidence hevidence
    cases h
    obtain ⟨evidence', hevidence', hp⟩ := catalogsEvidence_perm hperm hevidence
    rw [hevidence']
    dsimp only
    rw [sortByKey_eq_of_perm (evidence_of_order hevidence) hp,
      conclude_perm cveId _ ((found_perm hperm).map _) ((found_perm hperm).map _)]
  · exact h

/-! ## Agreement -/

/-- A state that says something definite about the versions. -/
def Definite (state : AffectedVersionRange.State) : Prop := state = .affected ∨ state = .notAffected

variable {α : Type}

theorem dedup_eq_singleton [DecidableEq α] {l : List α} {a : α} : l.dedup = [a] ↔ l ≠ [] ∧ ∀ b ∈ l, b = a := by
  constructor
  · intro h
    have hmem : ∀ b, b ∈ l ↔ b = a := fun b => by rw [← List.mem_dedup, h, List.mem_singleton]
    exact ⟨List.ne_nil_of_mem ((hmem a).mpr rfl), fun b hb => (hmem b).mp hb⟩
  · rintro ⟨hne, hall⟩
    have hmem : ∀ b, b ∈ l.dedup ↔ b ∈ [a] := by
      intro b
      rw [List.mem_dedup, List.mem_singleton]
      constructor
      · exact hall b
      · rintro rfl
        obtain ⟨c, hc⟩ := List.exists_mem_of_ne_nil l hne
        exact hall c hc ▸ hc
    exact List.perm_singleton.mp ((List.perm_ext_iff_of_nodup (List.nodup_dedup l) (List.nodup_singleton a)).mpr hmem)

theorem two_of_dedup [DecidableEq α] {l : List α} : 2 ≤ l.dedup.length ↔ ∃ a ∈ l, ∃ b ∈ l, a ≠ b := by
  constructor
  · intro h
    have hnodup := List.nodup_dedup l
    refine ⟨l.dedup[0], List.mem_dedup.mp (List.getElem_mem _), l.dedup[1], List.mem_dedup.mp (List.getElem_mem _), fun heq => ?_⟩
    exact absurd ((List.Nodup.getElem_inj_iff hnodup).mp heq) (by decide)
  · rintro ⟨a, ha, b, hb, hne⟩
    have hpair : [a, b].Nodup := by simp [hne]
    refine (List.subperm_of_subset hpair fun c hc => ?_).length_le
    obtain rfl | hc := List.mem_cons.mp hc
    · exact List.mem_dedup.mpr ha
    · rw [List.mem_singleton.mp hc]
      exact List.mem_dedup.mpr hb

theorem one_of_dedup [DecidableEq α] {l : List α} : ¬ 1 < l.dedup.length ↔ ∀ a ∈ l, ∀ b ∈ l, a = b := by
  rw [show (1 < l.dedup.length) = (2 ≤ l.dedup.length) from rfl, two_of_dedup]
  constructor
  · intro h a ha b hb
    by_contra hne
    exact h ⟨a, ha, b, hb, hne⟩
  · rintro h ⟨a, ha, b, hb, hne⟩
    exact hne (h a ha b hb)

/-- The sources of some evidence agree on a state: they have one identity, that state throughout, and two authorities. -/
structure Agrees (evidence : List SourceEvidence) (authorities : List String) (state : AffectedVersionRange.State) : Prop where
  definite : Definite state
  nonempty : evidence ≠ []
  identity : ∀ a ∈ evidence, ∀ b ∈ evidence, a.identityKey = b.identityKey
  states : ∀ e ∈ evidence, e.applicabilityState = state
  authorities : ∃ a ∈ authorities, ∃ b ∈ authorities, a ≠ b

theorem verdict_agreement {identityCount sourceCount sourceInstanceCount : Nat} {states : List AffectedVersionRange.State} :
    (verdict identityCount sourceCount sourceInstanceCount states).agreement = true ↔
      ¬ 1 < identityCount ∧ 2 ≤ sourceCount ∧ ∃ state, Definite state ∧ states = [state] := by
  unfold verdict Definite
  by_cases hidentity : 1 < identityCount
  · simp [hidentity]
  rw [if_neg hidentity]
  by_cases hcount : sourceCount < 2
  · rw [if_pos hcount]
    have hfew : ¬ 2 ≤ sourceCount := by omega
    split <;> simp [hfew]
  rw [if_neg hcount]
  have hmany : 2 ≤ sourceCount := by omega
  by_cases haffected : states = [.affected]
  · rw [if_pos haffected]
    exact iff_of_true rfl ⟨hidentity, hmany, _, .inl rfl, haffected⟩
  by_cases hnot : states = [.notAffected]
  · rw [if_neg haffected, if_pos hnot]
    exact iff_of_true rfl ⟨hidentity, hmany, _, .inr rfl, hnot⟩
  · rw [if_neg haffected, if_neg hnot]
    have hnone : ¬ ∃ state : AffectedVersionRange.State, (state = .affected ∨ state = .notAffected) ∧ states = [state] := by
      rintro ⟨state, rfl | rfl, hstates⟩
      · exact haffected hstates
      · exact hnot hstates
    split <;> simp [hnone]

variable {state : AffectedVersionRange.State}

/-- The states that an agreement is about. -/
theorem verdict_agreed {identityCount sourceCount sourceInstanceCount : Nat}
    (h : (verdict identityCount sourceCount sourceInstanceCount [state]).agreement = true) :
    (verdict identityCount sourceCount sourceInstanceCount [state]).agreed = some state := by
  obtain ⟨hidentity, hcount, found, hdefinite, heq⟩ := verdict_agreement.mp h
  obtain rfl := List.singleton_inj.mp heq
  unfold verdict
  rw [if_neg hidentity, if_neg (Nat.not_lt.mpr hcount)]
  obtain rfl | rfl := hdefinite <;> rfl

/-- An agreement is reported exactly when the sources agree. -/
theorem conclude_agreement {cveId : String}
    :
    (conclude cveId evidence authorities instances).crossSourceAgreement = true ↔ ∃ state, Agrees evidence authorities state := by
  unfold conclude
  split
  · rename_i hnone
    refine iff_of_false Bool.false_ne_true ?_
    rintro ⟨state, h⟩
    exact h.nonempty hnone
  · rename_i hne
    dsimp only
    rw [verdict_agreement, one_of_dedup, two_of_dedup]
    constructor
    · rintro ⟨hidentity, hauthorities, state, hdefinite, hstates⟩
      refine ⟨state, hdefinite, hne, ?_, ?_, hauthorities⟩
      · intro a ha b hb
        exact hidentity _ (List.mem_map_of_mem ha) _ (List.mem_map_of_mem hb)
      · intro e he
        exact (dedup_eq_singleton.mp hstates).2 _ (List.mem_map_of_mem he)
    · rintro ⟨state, h⟩
      refine ⟨?_, h.authorities, state, h.definite, dedup_eq_singleton.mpr ⟨by simpa using hne, ?_⟩⟩
      · intro a ha b hb
        obtain ⟨e, he, rfl⟩ := List.mem_map.mp ha
        obtain ⟨e', he', rfl⟩ := List.mem_map.mp hb
        exact h.identity e he e' he'
      · intro b hb
        obtain ⟨e, he, rfl⟩ := List.mem_map.mp hb
        exact h.states e he

theorem conclude_agreed {cveId : String}
    (h : (conclude cveId evidence authorities instances).crossSourceAgreement = true) (hstates : ∀ e ∈ evidence, e.applicabilityState = state) :
    (conclude cveId evidence authorities instances).agreedApplicabilityState = some state := by
  unfold conclude at h ⊢
  split at h
  · cases h
  rename_i hne
  have hsingle : (evidence.map (·.applicabilityState)).dedup = [state] := by
    refine dedup_eq_singleton.mpr ⟨by simpa using hne, ?_⟩
    intro b hb
    obtain ⟨e, he, rfl⟩ := List.mem_map.mp hb
    exact hstates e he
  rw [if_neg hne]
  dsimp only at h ⊢
  rw [hsingle] at h ⊢
  exact verdict_agreed h

/-- A consensus of the one CVE of a finding. -/
theorem consensus_ok (h : buildCveAdvisoryConsensus cases finding fingerprintVersions packageVersion catalogs = .ok r)
    (hagreement : r.crossSourceAgreement = true) :
    ∃ cveId evidence, finding.cveIds = [cveId] ∧
      catalogsEvidence cases cveId finding (observedOf fingerprintVersions packageVersion) catalogs = .ok evidence ∧
      r = conclude cveId (sortByKey SourceEvidence.order evidence) ((found cases cveId finding catalogs).map (·.sourceAuthority))
        ((found cases cveId finding catalogs).map fun catalog => (catalog.sourceAuthority, catalog.sourceName, catalog.sourceDigest)) := by
  unfold buildCveAdvisoryConsensus at h
  split at h
  · rename_i cveId hids
    split at h
    · cases h
    rename_i evidence hevidence
    cases h
    exact ⟨cveId, evidence, hids, hevidence, rfl⟩
  · cases h
    cases hagreement

theorem mem_found : catalog ∈ found cases cveId finding catalogs ↔
    catalog ∈ catalogs ∧ findVerified cases cveId finding catalog ≠ [] := by
  unfold found
  rw [List.mem_filter, decide_eq_true_eq]

/-- What an agreement says of the entries that are considered: two are of distinct authorities, and all have one identity and give one
definite state. -/
structure Independent (cases : LetterCases) (cveId : String) (finding : Finding) (observed : Observed) (catalogs : List Catalog)
    (state : AffectedVersionRange.State) : Prop where
  definite : Definite state
  authorities : ∃ catalog entry catalog' entry', Considered cases cveId finding catalogs catalog entry ∧
    Considered cases cveId finding catalogs catalog' entry' ∧ catalog.sourceAuthority ≠ catalog'.sourceAuthority
  identity : ∀ catalog entry catalog' entry', Considered cases cveId finding catalogs catalog entry →
    Considered cases cveId finding catalogs catalog' entry' → entry.identity = entry'.identity
  states : ∀ catalog entry, Considered cases cveId finding catalogs catalog entry →
    ∃ e, evidenceOf finding observed catalog entry = .ok e ∧ e.applicabilityState = state

theorem evidence_of_entry {entries : List Entry}
    (h : entriesEvidence finding observed catalog entries = .ok evidence) (hentry : entry ∈ entries) :
    ∃ e, evidenceOf finding observed catalog entry = .ok e := by
  induction entries generalizing evidence with
  | nil => cases hentry
  | cons first rest ih =>
    unfold entriesEvidence at h
    split at h
    · cases h
    rename_i mine hmine
    split at h
    · cases h
    rename_i others hothers
    obtain rfl | hrest := List.mem_cons.mp hentry
    · exact ⟨mine, hmine⟩
    · exact ih hothers hrest

/-- Each entry that is considered has its evidence. -/
theorem evidence_of_considered
    (h : catalogsEvidence cases cveId finding observed catalogs = .ok evidence)
    (hconsidered : Considered cases cveId finding catalogs catalog entry) :
    ∃ e ∈ evidence, evidenceOf finding observed catalog entry = .ok e := by
  have hof : ∃ e, evidenceOf finding observed catalog entry = .ok e := by
    obtain ⟨hcatalog, hentry⟩ := hconsidered
    induction catalogs generalizing evidence with
    | nil => cases hcatalog
    | cons first rest ih =>
      obtain ⟨mine, others, hmine, hothers, -⟩ := catalogsEvidence_cons.mp h
      obtain rfl | hrest := List.mem_cons.mp hcatalog
      · exact evidence_of_entry hmine hentry
      · exact ih hothers hrest
  obtain ⟨e, he⟩ := hof
  exact ⟨e, (mem_catalogsEvidence h).mpr ⟨catalog, entry, hconsidered, he⟩, he⟩

theorem identityKey_of_evidence
    (h : evidenceOf finding observed catalog entry = .ok e) : e.identityKey = identityKey entry := by
  unfold evidenceOf at h
  split at h
  · cases h
  cases h
  rfl

theorem independent_of_agrees
    (h : catalogsEvidence cases cveId finding observed catalogs = .ok evidence)
    (hagrees : Agrees evidence ((found cases cveId finding catalogs).map (·.sourceAuthority)) state) :
    Independent cases cveId finding observed catalogs state := by
  constructor
  case definite => exact hagrees.definite
  case authorities =>
    obtain ⟨a, ha, b, hb, hne⟩ := hagrees.authorities
    obtain ⟨catalog, hcatalog, rfl⟩ := List.mem_map.mp ha
    obtain ⟨catalog', hcatalog', rfl⟩ := List.mem_map.mp hb
    obtain ⟨hin, hsome⟩ := mem_found.mp hcatalog
    obtain ⟨hin', hsome'⟩ := mem_found.mp hcatalog'
    obtain ⟨entry, hentry⟩ := List.exists_mem_of_ne_nil _ hsome
    obtain ⟨entry', hentry'⟩ := List.exists_mem_of_ne_nil _ hsome'
    exact ⟨catalog, entry, catalog', entry', ⟨hin, hentry⟩, ⟨hin', hentry'⟩, hne⟩
  case identity =>
    intro catalog entry catalog' entry' hentry hentry'
    obtain ⟨e, he, hof⟩ := evidence_of_considered h hentry
    obtain ⟨e', he', hof'⟩ := evidence_of_considered h hentry'
    have hkey := hagrees.identity e he e' he'
    rw [identityKey_of_evidence hof, identityKey_of_evidence hof'] at hkey
    obtain ⟨wanted, hwanted, -, hcond⟩ := wanted_of_found hentry.2
    obtain ⟨wanted', hwanted', -, hcond'⟩ := wanted_of_found hentry'.2
    obtain rfl : wanted = wanted' := Option.some.inj (hwanted.symm.trans hwanted')
    exact identity_of_isWanted hcond hcond' (kind_of_identityKey hkey)
  case states =>
    intro catalog entry hentry
    obtain ⟨e, he, hof⟩ := evidence_of_considered h hentry
    exact ⟨e, hof, hagrees.states e he⟩

theorem agrees_sorted :
    Agrees (sortByKey SourceEvidence.order evidence) authorities state ↔ Agrees evidence authorities state := by
  have hmem : ∀ e, e ∈ sortByKey SourceEvidence.order evidence ↔ e ∈ evidence := fun _ => mem_sortByKey
  have hne : sortByKey SourceEvidence.order evidence ≠ [] ↔ evidence ≠ [] := by
    rw [← List.length_pos_iff, ← List.length_pos_iff, perm_sortByKey.length_eq]
  constructor
  · intro h
    refine ⟨h.definite, hne.mp h.nonempty, ?_, fun e he => h.states e ((hmem e).mpr he), h.authorities⟩
    exact fun a ha b hb => h.identity a ((hmem a).mpr ha) b ((hmem b).mpr hb)
  · intro h
    refine ⟨h.definite, hne.mpr h.nonempty, ?_, fun e he => h.states e ((hmem e).mp he), h.authorities⟩
    exact fun a ha b hb => h.identity a ((hmem a).mp ha) b ((hmem b).mp hb)

/-- An agreement that is reported is one of independent sources, and its state is theirs. -/
theorem agreement_independent (h : buildCveAdvisoryConsensus cases finding fingerprintVersions packageVersion catalogs = .ok r)
    (hagreement : r.crossSourceAgreement = true) :
    ∃ cveId state, finding.cveIds = [cveId] ∧ r.agreedApplicabilityState = some state ∧
      Independent cases cveId finding (observedOf fingerprintVersions packageVersion) catalogs state := by
  obtain ⟨cveId, evidence, hids, hevidence, rfl⟩ := consensus_ok h hagreement
  obtain ⟨state, hagrees⟩ := conclude_agreement.mp hagreement
  exact ⟨cveId, state, hids, conclude_agreed hagreement hagrees.states, independent_of_agrees hevidence (agrees_sorted.mp hagrees)⟩

/-- A catalog of an authority that something was found of already does not make an agreement. -/
theorem agreement_of_duplicate {duplicate : Catalog} (hmem : catalog ∈ catalogs)
    (hauthority : duplicate.sourceAuthority = catalog.sourceAuthority)
    (hfound : ∀ cveId, findVerified cases cveId finding duplicate ≠ [] → findVerified cases cveId finding catalog ≠ [])
    (h : buildCveAdvisoryConsensus cases finding fingerprintVersions packageVersion (duplicate :: catalogs) = .ok r)
    (hagreement : r.crossSourceAgreement = true) :
    ∃ r', buildCveAdvisoryConsensus cases finding fingerprintVersions packageVersion catalogs = .ok r' ∧
      r'.crossSourceAgreement = true := by
  obtain ⟨cveId, evidence, hids, hevidence, rfl⟩ := consensus_ok h hagreement
  obtain ⟨state, hsorted⟩ := conclude_agreement.mp hagreement
  have hagrees := agrees_sorted.mp hsorted
  obtain ⟨mine, others, hmine, hothers, rfl⟩ := catalogsEvidence_cons.mp hevidence
  have hauthorities : ∀ a, a ∈ (found cases cveId finding (duplicate :: catalogs)).map (·.sourceAuthority) →
      a ∈ (found cases cveId finding catalogs).map (·.sourceAuthority) := by
    intro a ha
    obtain ⟨c, hc, rfl⟩ := List.mem_map.mp ha
    obtain ⟨hin, hsome⟩ := mem_found.mp hc
    obtain rfl | hrest := List.mem_cons.mp hin
    · rw [hauthority]
      exact List.mem_map_of_mem (mem_found.mpr ⟨hmem, hfound cveId hsome⟩)
    · exact List.mem_map_of_mem (mem_found.mpr ⟨hrest, hsome⟩)
  obtain ⟨a, ha, b, hb, hne⟩ := hagrees.authorities
  have hnonempty : others ≠ [] := by
    obtain ⟨c, hc, -⟩ := List.mem_map.mp (hauthorities a ha)
    obtain ⟨hin, hsome⟩ := mem_found.mp hc
    obtain ⟨entry, hentry⟩ := List.exists_mem_of_ne_nil _ hsome
    obtain ⟨e, he, -⟩ := evidence_of_considered hothers ⟨hin, hentry⟩
    exact List.ne_nil_of_mem he
  have hrest : Agrees others ((found cases cveId finding catalogs).map (·.sourceAuthority)) state := by
    refine ⟨hagrees.definite, hnonempty, ?_, ?_, a, hauthorities a ha, b, hauthorities b hb, hne⟩
    · exact fun e he e' he' => hagrees.identity e (List.mem_append_right _ he) e' (List.mem_append_right _ he')
    · exact fun e he => hagrees.states e (List.mem_append_right _ he)
  unfold buildCveAdvisoryConsensus
  rw [hids]
  dsimp only
  rw [hothers]
  exact ⟨_, rfl, conclude_agreement.mpr ⟨state, agrees_sorted.mpr hrest⟩⟩

/-- The consensus does not depend on the order of the catalogs, a duplicate does not make an agreement, and an agreement is one of
independent sources. -/
theorem consensus_of_independent_sources (cases : LetterCases) (finding : Finding) (fingerprintVersions : List String)
    (packageVersion : Option String) :
    (∀ catalogs catalogs' : List Catalog, catalogs.Perm catalogs' → ∀ r,
      buildCveAdvisoryConsensus cases finding fingerprintVersions packageVersion catalogs = .ok r ↔
        buildCveAdvisoryConsensus cases finding fingerprintVersions packageVersion catalogs' = .ok r) ∧
    (∀ (catalogs : List Catalog) (catalog duplicate : Catalog), catalog ∈ catalogs →
      duplicate.sourceAuthority = catalog.sourceAuthority →
      (∀ cveId, findVerified cases cveId finding duplicate ≠ [] → findVerified cases cveId finding catalog ≠ []) →
      ∀ r, buildCveAdvisoryConsensus cases finding fingerprintVersions packageVersion (duplicate :: catalogs) = .ok r →
        r.crossSourceAgreement = true →
        ∃ r', buildCveAdvisoryConsensus cases finding fingerprintVersions packageVersion catalogs = .ok r' ∧
          r'.crossSourceAgreement = true) ∧
    ∀ (catalogs : List Catalog) r, buildCveAdvisoryConsensus cases finding fingerprintVersions packageVersion catalogs = .ok r →
      r.crossSourceAgreement = true →
      ∃ cveId state, finding.cveIds = [cveId] ∧ r.agreedApplicabilityState = some state ∧
        Independent cases cveId finding (observedOf fingerprintVersions packageVersion) catalogs state := by
  refine ⟨?_, ?_, ?_⟩
  · intro catalogs catalogs' hperm r
    exact ⟨consensus_perm hperm, consensus_perm hperm.symm⟩
  · intro catalogs catalog duplicate hmem hauthority hfound r h hagreement
    exact agreement_of_duplicate hmem hauthority hfound h hagreement
  · intro catalogs r h hagreement
    exact agreement_independent h hagreement

/-! ## A sample -/

def sampleCases : LetterCases := ⟨ExecutionContract.sampleUnicode, List.map Char.toUpper⟩

/-- A finding of a package. -/
def sampleFinding : Finding := ⟨"f", ["CVE-2024-0001"], none, none, some "e", some "n", .missing, "", none⟩

/-- A catalog of an authority that has the package affected below a version. -/
def sampleCatalog (authority : String) : Catalog :=
  ⟨catalogSchema, "s", authority, true, "d", [⟨"CVE-2024-0001", .package, none, none, some "e", some "n", ["<2"], true⟩]⟩

theorem agreement_sample :
    (buildCveAdvisoryConsensus sampleCases sampleFinding [] (some "1") [sampleCatalog "a", sampleCatalog "a", sampleCatalog "b"]).toOption.map
      (·.crossSourceAgreement) = some true := by
  decide +kernel

/-- Two authorities agree, one of them with two catalogs. -/
theorem consensus_of_independent_sources_sample :
    ∃ r r', buildCveAdvisoryConsensus sampleCases sampleFinding [] (some "1") [sampleCatalog "a", sampleCatalog "a", sampleCatalog "b"]
        = .ok r ∧
      buildCveAdvisoryConsensus sampleCases sampleFinding [] (some "1") [sampleCatalog "b", sampleCatalog "a", sampleCatalog "a"] = .ok r ∧
      buildCveAdvisoryConsensus sampleCases sampleFinding [] (some "1") [sampleCatalog "a", sampleCatalog "b"] = .ok r' ∧
      r'.crossSourceAgreement = true ∧ ∃ state, r.agreedApplicabilityState = some state ∧ Definite state := by
  have hsample := agreement_sample
  obtain ⟨horder, hduplicate, hindependent⟩ := consensus_of_independent_sources sampleCases sampleFinding [] (some "1")
  cases hbuild : buildCveAdvisoryConsensus sampleCases sampleFinding [] (some "1")
      [sampleCatalog "a", sampleCatalog "a", sampleCatalog "b"] with
  | error e =>
    rw [hbuild] at hsample
    cases hsample
  | ok r =>
    rw [hbuild] at hsample
    have hagreement : r.crossSourceAgreement = true := Option.some.inj hsample
    obtain ⟨r', hr', hagreement'⟩ := hduplicate [sampleCatalog "a", sampleCatalog "b"] (sampleCatalog "a") (sampleCatalog "a")
      List.mem_cons_self rfl (fun _ h => h) r hbuild hagreement
    obtain ⟨cveId, state, -, hagreed, hstate⟩ := hindependent _ r hbuild hagreement
    have hperm : [sampleCatalog "a", sampleCatalog "a", sampleCatalog "b"].Perm [sampleCatalog "b", sampleCatalog "a", sampleCatalog "a"] :=
      List.reverse_perm _ |>.symm
    exact ⟨r, r', rfl, (horder _ _ hperm r).mp hbuild, hr', hagreement', state, hagreed, hstate.definite⟩

end CveAdvisoryConsensus

end XbowPerso
