import XbowPerso.LearningMemory
import XbowPerso.Lemmas.ObservationGraph
import XbowPerso.Theorems.ContractRate

/-!
# The memory of techniques is a fold over jobs

The memory depends on the facts alone and not on their order, and evidence outside the origin only takes jobs out of account. A job that
reports again from a source before its own may give its technique one source more.
-/

namespace XbowPerso

namespace LearningMemory

open GroupBy (groupBy get?_groupBy groupBy_concat groupBy_perm perm_of_get?)
open SortByKey (sortByKey mem_sortByKey perm_sortByKey sortByKey_eq_of_perm)

attribute [local instance] decidableBlocked

/-! ## Confidence -/

/-- A quotient that is at least one is cut to one. -/
theorem pyMin_one {n d : Nat} (hd : 0 < d) (h : d ≤ n) : Binary64.pyMin .one (.ofQuotient n hd) = .one := by
  rw [Binary64.pyMin, if_neg]
  intro hlt
  obtain ⟨a, b, ha, hb, hab⟩ := Binary64.lt_iff.mp hlt
  have hround : Binary64.roundUnits (2 ^ 1074) 1 ≤ Binary64.roundUnits (n * 2 ^ 1074) d :=
    Binary64.roundUnits_mono Nat.one_pos hd (by rw [Nat.mul_one, Nat.mul_comm]; exact Nat.mul_le_mul_right _ h)
  have hone : Binary64.roundUnits (2 ^ 1074) 1 < Binary64.overflow := by decide +kernel
  rcases Binary64.ofRatio_cases false (2 ^ 1074) Nat.one_pos with ⟨-, hvalue⟩ | ⟨hover, -⟩
  · have hb' : b = ((Binary64.signed false (Binary64.roundUnits (2 ^ 1074) 1) : WithTop Int) : WithBot (WithTop Int)) :=
      Option.some.inj (hb.symm.trans hvalue)
    rcases Binary64.ofRatio_cases false (n * 2 ^ 1074) hd with ⟨-, hvalue'⟩ | ⟨-, hinfinite⟩
    · have ha' := Option.some.inj (ha.symm.trans hvalue')
      rw [ha', hb', WithBot.coe_lt_coe, WithTop.coe_lt_coe] at hab
      simp only [Binary64.signed, Bool.false_eq_true, if_false] at hab
      omega
    · have ha' : a = ((⊤ : WithTop Int) : WithBot (WithTop Int)) := by
        rw [Binary64.ofQuotient, hinfinite] at ha
        exact (Option.some.inj ha).symm
      rw [ha', hb', WithBot.coe_lt_coe] at hab
      exact absurd hab (not_lt_of_ge le_top)
  · omega

/-- More than five conclusive attempts or two sources count as five and two. -/
theorem confidence_eq (conclusive sources : Nat) : confidence conclusive sources = confidence (min conclusive 5) (min sources 2) := by
  have hcut : ∀ (n : Nat) {d : Nat} (hd : 0 < d),
      Binary64.pyMin .one (.ofQuotient n hd) = Binary64.pyMin .one (.ofQuotient (min n d) hd) := by
    intro n d hd
    rcases Nat.le_total n d with h | h
    · rw [Nat.min_eq_left h]
    · rw [Nat.min_eq_right h, pyMin_one hd h, pyMin_one hd (Nat.le_refl d)]
  rw [confidence, confidence, hcut conclusive, hcut sources]

theorem confidence_table : ∀ c < 6, ∀ n < 3, confidence c n = .decimal (c * n) 1 := by decide +kernel

theorem decimal_table : ∀ k < 11, ∀ k' < 11, k ≤ k' → (Binary64.decimal k 1).le (.decimal k' 1) = true := by decide +kernel

example : confidence 7 2 = .one := by decide +kernel

/-- Fewer conclusive attempts and fewer sources give no more confidence. -/
theorem confidence_mono {c c' n n' : Nat} (hc : c ≤ c') (hn : n ≤ n') : (confidence c n).le (confidence c' n') = true := by
  have hle : min c 5 * min n 2 ≤ min c' 5 * min n' 2 := Nat.mul_le_mul (by omega) (by omega)
  have hten : min c' 5 * min n' 2 ≤ 5 * 2 := Nat.mul_le_mul (by omega) (by omega)
  rw [confidence_eq c n, confidence_eq c' n', confidence_table _ (by omega) _ (by omega), confidence_table _ (by omega) _ (by omega)]
  exact decimal_table _ (by omega) _ (by omega) hle

/-! ## The order of the facts -/

instance : RightCommutative Attempt.report where
  right_comm a f g := by
    unfold Attempt.report
    dsimp only
    rw [Finset.insert_comm]
    congr 1
    split <;> split <;> first | rfl | rw [Finset.insert_comm]

instance : RightCommutative Bucket.count where
  right_comm b d e := by
    unfold Bucket.count
    dsimp only
    rw [Finset.union_right_comm]
    congr 1 <;> split <;> split <;> rfl

/-- The attempts of a technique. -/
def jobs (facts : List Fact) (technique : String) : List Entry :=
  (attemptsOf facts).entries.filter fun e => decide (e.1.1 = technique)

/-- What the attempts of a technique add up to. -/
def bucket (facts : List Fact) (technique : String) : Bucket := (jobs facts technique).foldl Bucket.count .empty

theorem get?_bucketsOf (facts : List Fact) (technique : String) :
    (bucketsOf (attemptsOf facts)).get? technique = if jobs facts technique = [] then none else some (bucket facts technique) := by
  have hperm : ((sortByKey (fun e : Entry => toLex e.1) (attemptsOf facts).entries).filter fun e => decide (e.1.1 = technique)).Perm
      (jobs facts technique) := perm_sortByKey.filter _
  have hnil : (sortByKey (fun e : Entry => toLex e.1) (attemptsOf facts).entries).filter (fun e => decide (e.1.1 = technique)) = [] ↔
      jobs facts technique = [] := by
    rw [← List.length_eq_zero_iff, ← List.length_eq_zero_iff, hperm.length_eq]
  rw [bucketsOf, get?_groupBy, hperm.foldl_eq, bucket]
  simp only [hnil]

/-- The techniques that are remembered are those with an attempt. -/
theorem mem_memoriesOf {facts : List Fact} {m : TechniqueMemory} :
    m ∈ memoriesOf facts ↔ jobs facts m.technique ≠ [] ∧ m = memoryOf m.technique (bucket facts m.technique) := by
  rw [memoriesOf, mem_sortByKey, List.mem_map]
  constructor
  · rintro ⟨⟨technique, b⟩, hentry, rfl⟩
    have hget := Dict.mem_entries.mp hentry
    rw [get?_bucketsOf] at hget
    split at hget
    · cases hget
    rename_i hne
    cases hget
    exact ⟨hne, rfl⟩
  · rintro ⟨hne, hm⟩
    refine ⟨(m.technique, bucket facts m.technique), Dict.mem_entries.mpr ?_, hm.symm⟩
    rw [get?_bucketsOf, if_neg hne]

/-- The memory does not depend on the order of the facts. -/
theorem memoriesOf_perm {facts facts' : List Fact} (h : facts.Perm facts') : memoriesOf facts = memoriesOf facts' := by
  have hattempts : (attemptsOf facts).entries.Perm (attemptsOf facts').entries := groupBy_perm h
  have hbuckets : (bucketsOf (attemptsOf facts)).entries.Perm (bucketsOf (attemptsOf facts')).entries :=
    groupBy_perm (perm_sortByKey.trans (hattempts.trans perm_sortByKey.symm))
  refine sortByKey_eq_of_perm (fun m hm m' hm' horder => ?_) (hbuckets.map _)
  have htechnique : m.technique = m'.technique := by
    have horder' := congrArg ofLex horder
    have h2 := congrArg ofLex (congrArg Prod.snd horder')
    have h3 := congrArg ofLex (congrArg Prod.snd h2)
    exact congrArg Prod.snd h3
  have hmem := mem_memoriesOf.mp (mem_sortByKey.mpr hm)
  have hmem' := mem_memoriesOf.mp (mem_sortByKey.mpr hm')
  rw [hmem.2, hmem'.2, htechnique]

/-! ## What a bucket holds -/

theorem foldl_count (l : List Entry) (b : Bucket) :
    (l.foldl Bucket.count b).attempts = b.attempts + l.length ∧
      (l.foldl Bucket.count b).successes = b.successes + (l.filter fun e => decide (e.2.outcome = .success)).length ∧
      (l.foldl Bucket.count b).failures = b.failures + (l.filter fun e => decide (e.2.outcome = .failure)).length ∧
      (l.foldl Bucket.count b).inconclusive = b.inconclusive + (l.filter fun e => decide (e.2.outcome = .inconclusive)).length ∧
      ∀ source, source ∈ (l.foldl Bucket.count b).sources ↔ source ∈ b.sources ∨ ∃ e ∈ l, source ∈ e.2.source := by
  induction l generalizing b with
  | nil => simp
  | cons e l ih =>
    obtain ⟨hattempts, hsuccesses, hfailures, hinconclusive, hsources⟩ := ih (b.count e)
    rw [List.foldl_cons]
    refine ⟨?_, ?_, ?_, ?_, fun source => ?_⟩
    · rw [hattempts, List.length_cons]
      simp only [Bucket.count]
      omega
    · rw [hsuccesses, Bucket.count, List.filter_cons]
      by_cases h : e.2.outcome = .success
      · simp [h]
        omega
      · simp [h]
    · rw [hfailures, Bucket.count, List.filter_cons]
      by_cases h : e.2.outcome = .failure
      · simp [h]
        omega
      · simp [h]
    · rw [hinconclusive, Bucket.count, List.filter_cons]
      by_cases h : e.2.outcome = .inconclusive
      · simp [h]
        omega
      · simp [h]
    · rw [hsources]
      simp only [Bucket.count, Finset.mem_union, List.mem_cons, exists_eq_or_imp]
      tauto

/-- The attempts of a technique with an outcome. -/
def jobsWith (facts : List Fact) (technique : String) (outcome : Outcome) : List Entry :=
  (jobs facts technique).filter fun e => decide (e.2.outcome = outcome)

theorem bucket_counts (facts : List Fact) (technique : String) :
    (bucket facts technique).attempts = (jobs facts technique).length ∧
      (bucket facts technique).successes = (jobsWith facts technique .success).length ∧
      (bucket facts technique).failures = (jobsWith facts technique .failure).length ∧
      (bucket facts technique).inconclusive = (jobsWith facts technique .inconclusive).length := by
  obtain ⟨hattempts, hsuccesses, hfailures, hinconclusive, -⟩ := foldl_count (jobs facts technique) .empty
  refine ⟨?_, ?_, ?_, ?_⟩
  · rw [bucket, hattempts, Bucket.empty, Nat.zero_add]
  · rw [bucket, hsuccesses, Bucket.empty, Nat.zero_add, jobsWith]
  · rw [bucket, hfailures, Bucket.empty, Nat.zero_add, jobsWith]
  · rw [bucket, hinconclusive, Bucket.empty, Nat.zero_add, jobsWith]

theorem length_split (l : List Entry) : l.length = (l.filter fun e => decide (e.2.outcome = .success)).length +
    (l.filter fun e => decide (e.2.outcome = .failure)).length +
    (l.filter fun e => decide (e.2.outcome = .inconclusive)).length := by
  induction l with
  | nil => rfl
  | cons e l ih =>
    rw [List.length_cons, List.filter_cons, List.filter_cons, List.filter_cons]
    cases h : e.2.outcome <;> simp <;> omega

variable {a : Attempt}

/-- An attempt with two outcomes is inconclusive. -/
theorem outcome_of_contradiction {o o' : Outcome} (h : o ∈ a.outcomes) (h' : o' ∈ a.outcomes) (hne : o ≠ o') :
    a.outcome = .inconclusive := by
  have hsingle : ∀ x : Outcome, a.outcomes ≠ {x} := by
    intro x heq
    rw [heq, Finset.mem_singleton] at h h'
    exact hne (h.trans h'.symm)
  rw [Attempt.outcome, if_neg (hsingle _), if_neg (hsingle _)]

theorem mem_foldl_report (l : List Fact) (a : Attempt) :
    (∀ o, o ∈ (l.foldl Attempt.report a).outcomes ↔ o ∈ a.outcomes ∨ ∃ f ∈ l, f.outcome = o) ∧
      ∀ s, s ∈ (l.foldl Attempt.report a).sources ↔ s ∈ a.sources ∨ ∃ f ∈ l, f.source = s ∧ s ≠ "" := by
  induction l generalizing a with
  | nil => simp
  | cons f l ih =>
    obtain ⟨houtcomes, hsources⟩ := ih (a.report f)
    rw [List.foldl_cons]
    refine ⟨fun o => ?_, fun s => ?_⟩
    · rw [houtcomes]
      simp only [Attempt.report, Finset.mem_insert, List.mem_cons, exists_eq_or_imp]
      constructor
      · rintro ((rfl | h) | h)
        · exact .inr (.inl rfl)
        · exact .inl h
        · exact .inr (.inr h)
      · rintro (h | rfl | h)
        · exact .inl (.inr h)
        · exact .inl (.inl rfl)
        · exact .inr h
    · rw [hsources]
      simp only [Attempt.report, List.mem_cons, exists_eq_or_imp]
      by_cases hblank : f.source = ""
      · rw [if_pos hblank]
        constructor
        · rintro (h | h)
          · exact .inl h
          · exact .inr (.inr h)
        · rintro (h | ⟨rfl, hne⟩ | h)
          · exact .inl h
          · exact absurd hblank hne
          · exact .inr h
      · rw [if_neg hblank, Finset.mem_insert]
        constructor
        · rintro ((rfl | h) | h)
          · exact .inr (.inl ⟨rfl, hblank⟩)
          · exact .inl h
          · exact .inr (.inr h)
        · rintro (h | ⟨rfl, -⟩ | h)
          · exact .inl (.inr h)
          · exact .inl (.inl rfl)
          · exact .inr h

variable {f : Fact}

/-- Each fact is part of the attempt of its job. -/
theorem attempt_of_fact {facts : List Fact} (h : f ∈ facts) :
    ∃ a, (attemptsOf facts).get? f.key = some a ∧ (∀ o, o ∈ a.outcomes ↔ ∃ g ∈ facts, g.key = f.key ∧ g.outcome = o) := by
  have hmem : f ∈ facts.filter fun g => decide (g.key = f.key) := List.mem_filter.mpr ⟨h, decide_eq_true rfl⟩
  refine ⟨(facts.filter fun g => decide (g.key = f.key)).foldl Attempt.report .empty, ?_, fun o => ?_⟩
  · rw [attemptsOf, get?_groupBy, if_neg (List.ne_nil_of_mem hmem)]
  · rw [(mem_foldl_report _ _).1]
    simp only [Attempt.empty, Finset.notMem_empty, false_or, List.mem_filter, decide_eq_true_eq, and_assoc]

/-- A job that reported two outcomes is among the inconclusive ones. -/
theorem contradiction_inconclusive {facts : List Fact} {g : Fact} (hf : f ∈ facts) (hg : g ∈ facts) (hkey : g.key = f.key)
    (hne : f.outcome ≠ g.outcome) : ∃ a, (f.key, a) ∈ jobsWith facts f.technique .inconclusive := by
  obtain ⟨a, hget, houtcomes⟩ := attempt_of_fact hf
  refine ⟨a, List.mem_filter.mpr ⟨List.mem_filter.mpr ⟨Dict.mem_entries.mpr hget, decide_eq_true rfl⟩, decide_eq_true ?_⟩⟩
  exact outcome_of_contradiction ((houtcomes _).mpr ⟨f, hf, rfl, rfl⟩) ((houtcomes _).mpr ⟨g, hg, hkey, rfl⟩) hne

/-! ## One job and the others -/

/-- The attempts of the other jobs of a technique. -/
def others (facts : List Fact) (k : String × String) : List Entry := (jobs facts k.1).filter fun e => decide (e.1 ≠ k)

/-- What they add up to. -/
def rest (facts : List Fact) (k : String × String) : Bucket := (others facts k).foldl Bucket.count .empty

variable {facts facts' : List Fact} {k : String × String}

variable {technique : String}

theorem mem_jobs {e : Entry} :
    e ∈ jobs facts technique ↔ (attemptsOf facts).get? e.1 = some e.2 ∧ e.1.1 = technique := by
  rw [jobs, List.mem_filter, decide_eq_true_eq, ← Dict.mem_entries]

theorem jobs_ne_nil (h : (attemptsOf facts).get? k = some a) : jobs facts k.1 ≠ [] := by
  have hmem : (k, a) ∈ jobs facts k.1 := mem_jobs.mpr ⟨h, rfl⟩
  exact List.ne_nil_of_mem hmem

theorem nodup_jobs (facts : List Fact) (technique : String) : (jobs facts technique).Nodup :=
  (List.Nodup.of_map _ (attemptsOf facts).nodup).filter _

theorem bucket_at (h : (attemptsOf facts).get? k = some a) : bucket facts k.1 = (rest facts k).count (k, a) := by
  have hnew : (k, a) ∉ others facts k := by
    intro hmem
    have hne := (List.mem_filter.mp hmem).2
    simp at hne
  have hnodup : (others facts k ++ [(k, a)]).Nodup :=
    List.nodup_append.mpr ⟨(nodup_jobs facts k.1).filter _, List.nodup_singleton _, fun x hx y hy hxy =>
      hnew (by rw [List.mem_singleton] at hy; rw [← hy, ← hxy]; exact hx)⟩
  have hperm : (jobs facts k.1).Perm (others facts k ++ [(k, a)]) := by
    refine (List.perm_ext_iff_of_nodup (nodup_jobs facts k.1) hnodup).mpr fun e => ?_
    rw [List.mem_append, List.mem_singleton, others, List.mem_filter, decide_eq_true_eq]
    constructor
    · intro hmem
      by_cases hkey : e.1 = k
      · right
        have hget := (mem_jobs.mp hmem).1
        rw [hkey, h] at hget
        rw [← hkey, Option.some.inj hget]
      · exact .inl ⟨hmem, hkey⟩
    · rintro (⟨hmem, -⟩ | rfl)
      · exact hmem
      · exact mem_jobs.mpr ⟨h, rfl⟩
  rw [bucket, hperm.foldl_eq, List.foldl_append, rest, List.foldl_cons, List.foldl_nil]

theorem jobs_congr (h : ∀ k', k'.1 = technique → (attemptsOf facts').get? k' = (attemptsOf facts).get? k') :
    (jobs facts' technique).Perm (jobs facts technique) := by
  refine (List.perm_ext_iff_of_nodup (nodup_jobs _ _) (nodup_jobs _ _)).mpr fun e => ?_
  rw [mem_jobs, mem_jobs]
  constructor
  · rintro ⟨hget, htechnique⟩
    exact ⟨by rw [← h _ htechnique, hget], htechnique⟩
  · rintro ⟨hget, htechnique⟩
    exact ⟨by rw [h _ htechnique, hget], htechnique⟩

theorem rest_congr (h : ∀ k', k' ≠ k → (attemptsOf facts').get? k' = (attemptsOf facts).get? k') : rest facts' k = rest facts k := by
  have hperm : (others facts' k).Perm (others facts k) := by
    refine (List.perm_ext_iff_of_nodup ((nodup_jobs _ _).filter _) ((nodup_jobs _ _).filter _)).mpr fun e => ?_
    rw [List.mem_filter, List.mem_filter, mem_jobs, mem_jobs, decide_eq_true_eq]
    constructor
    · rintro ⟨⟨hget, htechnique⟩, hne⟩
      exact ⟨⟨by rw [← h _ hne, hget], htechnique⟩, hne⟩
    · rintro ⟨⟨hget, htechnique⟩, hne⟩
      exact ⟨⟨by rw [h _ hne, hget], htechnique⟩, hne⟩
  rw [rest, rest, hperm.foldl_eq]

/-! ## A job that reports again -/

/-- No number of a technique is greater than it was. -/
structure NoMore (m' m : TechniqueMemory) : Prop where
  technique : m'.technique = m.technique
  attempts : m'.attempts ≤ m.attempts
  successes : m'.successes ≤ m.successes
  failures : m'.failures ≤ m.failures
  inconclusive : m'.inconclusive ≤ m.inconclusive
  sourceCount : m'.sourceCount ≤ m.sourceCount
  confidence : m'.confidence.le m.confidence = true

theorem noMore_of_buckets {b b' : Bucket} (hattempts : b'.attempts ≤ b.attempts) (hsuccesses : b'.successes ≤ b.successes)
    (hfailures : b'.failures ≤ b.failures) (hinconclusive : b'.inconclusive ≤ b.inconclusive)
    (hsources : b'.sources.card ≤ b.sources.card) : NoMore (memoryOf technique b') (memoryOf technique b) where
  technique := rfl
  attempts := hattempts
  successes := hsuccesses
  failures := hfailures
  inconclusive := hinconclusive
  sourceCount := hsources
  confidence := by
    simp only [memoryOf]
    exact confidence_mono (Nat.add_le_add hsuccesses hfailures) hsources

/-- The source that the job of a key counts for. -/
def ownSource (facts : List Fact) (k : String × String) : Finset String :=
  match (attemptsOf facts).get? k with
  | some a => a.source
  | none => ∅

/-- The sources that the other jobs of the technique count for. -/
def otherSources (facts : List Fact) (k : String × String) : Finset String := (rest facts k).sources

/-- The source of a fact comes before the one its job counted for, no other job counts for it, and another job counts for the old one. -/
def AddsSource (facts : List Fact) (f : Fact) : Prop :=
  f.source ≠ "" ∧ (∀ s ∈ ownSource facts f.key, f.source < s ∧ s ∈ otherSources facts f.key) ∧ f.source ∉ otherSources facts f.key

theorem get?_report (facts : List Fact) (f : Fact) (h : (attemptsOf facts).get? f.key = some a) (k : String × String) :
    (attemptsOf (facts ++ [f])).get? k = if k = f.key then some (a.report f) else (attemptsOf facts).get? k := by
  rw [attemptsOf, groupBy_concat, GroupBy.join, Dict.get?_set]
  change (if k = f.key then some (Attempt.report (((attemptsOf facts).get? f.key).getD .empty) f) else (attemptsOf facts).get? k) = _
  rw [h, Option.getD_some]

theorem source_eq (h : a.sources.Nonempty) : a.source = {a.sources.min' h} := dif_pos h

theorem source_eq_empty (h : ¬ a.sources.Nonempty) : a.source = ∅ := dif_neg h

/-- How many sources a technique has when a job of it reports again. -/
theorem card_report {sources : Finset String} :
    (sources ∪ (a.report f).source).card ≤ (sources ∪ a.source).card ↔
      ¬ (f.source ≠ "" ∧ (∀ s ∈ a.source, f.source < s ∧ s ∈ sources) ∧ f.source ∉ sources) := by
  by_cases hblank : f.source = ""
  · have hsame : (a.report f).source = a.source := by
      unfold Attempt.source Attempt.report
      simp only [hblank, if_true]
    rw [hsame]
    exact ⟨fun _ h => h.1 hblank, fun _ => le_refl _⟩
  have hsources : (a.report f).sources = insert f.source a.sources := if_neg hblank
  have hnonempty : (a.report f).sources.Nonempty := by
    rw [hsources]
    exact Finset.insert_nonempty _ _
  by_cases hnone : a.sources.Nonempty
  · have hmin : (a.report f).sources.min' hnonempty = min f.source (a.sources.min' hnone) := by
      simp only [hsources]
      rw [Finset.min'_insert _ _ hnone, min_comm]
    rw [source_eq hnonempty, hmin, source_eq hnone]
    by_cases hlt : f.source < a.sources.min' hnone
    · rw [min_eq_left hlt.le]
      by_cases hmem : f.source ∈ sources
      · have hunion : sources ∪ {f.source} = sources := Finset.union_eq_left.mpr (Finset.singleton_subset_iff.mpr hmem)
        rw [hunion]
        exact ⟨fun _ h => h.2.2 hmem, fun _ => Finset.card_le_card Finset.subset_union_left⟩
      · have hcard : (sources ∪ {f.source}).card = sources.card + 1 := by
          rw [Finset.union_comm, ← Finset.insert_eq, Finset.card_insert_of_notMem hmem]
        rw [hcard]
        by_cases hold : a.sources.min' hnone ∈ sources
        · have hunion : sources ∪ {a.sources.min' hnone} = sources :=
            Finset.union_eq_left.mpr (Finset.singleton_subset_iff.mpr hold)
          rw [hunion]
          refine ⟨fun h => absurd h (by omega), fun h => absurd ⟨hblank, fun s hs => ?_, hmem⟩ h⟩
          rw [Finset.mem_singleton.mp hs]
          exact ⟨hlt, hold⟩
        · have hcard' : (sources ∪ {a.sources.min' hnone}).card = sources.card + 1 := by
            rw [Finset.union_comm, ← Finset.insert_eq, Finset.card_insert_of_notMem hold]
          rw [hcard']
          exact ⟨fun _ h => hold (h.2.1 _ (Finset.mem_singleton_self _)).2, fun _ => le_refl _⟩
    · rw [min_eq_right (not_lt.mp hlt)]
      exact ⟨fun _ h => hlt (h.2.1 _ (Finset.mem_singleton_self _)).1, fun _ => le_refl _⟩
  · have hempty : a.sources = ∅ := Finset.not_nonempty_iff_eq_empty.mp hnone
    have hmin : (a.report f).source = {f.source} := by
      rw [source_eq hnonempty]
      congr 1
      simp only [hsources, hempty]
      exact Finset.min'_singleton f.source
    rw [hmin, source_eq_empty hnone, Finset.union_empty]
    by_cases hmem : f.source ∈ sources
    · have hunion : sources ∪ {f.source} = sources := Finset.union_eq_left.mpr (Finset.singleton_subset_iff.mpr hmem)
      rw [hunion]
      exact ⟨fun _ h => h.2.2 hmem, fun _ => le_refl _⟩
    · have hcard : (sources ∪ {f.source}).card = sources.card + 1 := by
        rw [Finset.union_comm, ← Finset.insert_eq, Finset.card_insert_of_notMem hmem]
      rw [hcard]
      exact ⟨fun h => absurd h (by omega), fun h => absurd ⟨hblank, fun s hs => absurd hs (Finset.notMem_empty s), hmem⟩ h⟩

/-- The numbers of a technique when a job of it reports an outcome again. -/
theorem bucket_report (h : (attemptsOf facts).get? f.key = some a) (houtcome : f.outcome ∈ a.outcomes) :
    let b := bucket facts f.technique
    let b' := bucket (facts ++ [f]) f.technique
    b'.attempts = b.attempts ∧ b'.successes = b.successes ∧ b'.failures = b.failures ∧ b'.inconclusive = b.inconclusive ∧
      (b'.sources.card ≤ b.sources.card ↔ ¬ AddsSource facts f) := by
  have hget : (attemptsOf (facts ++ [f])).get? f.key = some (a.report f) := by rw [get?_report facts f h, if_pos rfl]
  have hrest : rest (facts ++ [f]) f.key = rest facts f.key := rest_congr fun k hk => by rw [get?_report facts f h, if_neg hk]
  have hold : bucket facts f.technique = (rest facts f.key).count (f.key, a) := bucket_at h
  have hnew : bucket (facts ++ [f]) f.technique = (rest facts f.key).count (f.key, a.report f) := by
    rw [← hrest]
    exact bucket_at hget
  have hsame : (a.report f).outcome = a.outcome := by
    have hinsert : (a.report f).outcomes = a.outcomes := Finset.insert_eq_of_mem houtcome
    rw [Attempt.outcome, Attempt.outcome, hinsert]
  have hown : ownSource facts f.key = a.source := by rw [ownSource, h]
  have hadds : AddsSource facts f ↔ f.source ≠ "" ∧ (∀ s ∈ a.source, f.source < s ∧ s ∈ (rest facts f.key).sources) ∧
      f.source ∉ (rest facts f.key).sources := by
    rw [AddsSource, hown, otherSources]
  dsimp only
  rw [hold, hnew, hadds]
  simp only [Bucket.count, hsame]
  exact ⟨trivial, trivial, trivial, trivial, card_report⟩

/-- A job that reports an outcome again leaves the other techniques alone. -/
theorem bucket_other (h : (attemptsOf facts).get? f.key = some a)
    (hne : technique ≠ f.technique) : (jobs (facts ++ [f]) technique).Perm (jobs facts technique) := by
  refine jobs_congr fun k hk => ?_
  have hkey : k ≠ f.key := by
    rintro rfl
    exact hne hk.symm
  rw [get?_report facts f h, if_neg hkey]

theorem ne_nil_of_perm {l l' : List Entry} (h : l.Perm l') (hne : l ≠ []) : l' ≠ [] := by
  rintro rfl
  exact hne h.eq_nil

/-- A technique that the jobs left as it was. -/
theorem memory_of_perm (h : (jobs facts' technique).Perm (jobs facts technique)) {m : TechniqueMemory}
    (hm : m ∈ memoriesOf facts') (htechnique : m.technique = technique) : m ∈ memoriesOf facts := by
  subst htechnique
  obtain ⟨hne, hmemory⟩ := mem_memoriesOf.mp hm
  refine mem_memoriesOf.mpr ⟨ne_nil_of_perm h hne, ?_⟩
  have hbucket : bucket facts' m.technique = bucket facts m.technique := h.foldl_eq _
  rw [← hbucket]
  exact hmemory

theorem NoMore.refl {m : TechniqueMemory} (hm : m ∈ memoriesOf facts) : NoMore m m := by
  rw [(mem_memoriesOf.mp hm).2]
  exact noMore_of_buckets (le_refl _) (le_refl _) (le_refl _) (le_refl _) (le_refl _)

/-- When a job reports an outcome again, no number of any technique grows, unless the technique has one source more. -/
theorem report_again (h : ∃ g ∈ facts, g.key = f.key ∧ g.outcome = f.outcome) :
    (∀ m' ∈ memoriesOf (facts ++ [f]), ∃ m ∈ memoriesOf facts, NoMore m' m) ↔
      ¬ AddsSource facts f := by
  obtain ⟨g, hg, hkey, houtcome⟩ := h
  obtain ⟨a, hget, houtcomes⟩ := attempt_of_fact hg
  rw [hkey] at hget
  have hmem : f.outcome ∈ a.outcomes := (houtcomes _).mpr ⟨g, hg, rfl, houtcome⟩
  obtain ⟨hattempts, hsuccesses, hfailures, hinconclusive, hsources⟩ := bucket_report hget hmem
  have hnew : (attemptsOf (facts ++ [f])).get? f.key = some (a.report f) := by rw [get?_report facts f hget, if_pos rfl]
  have hold : memoryOf f.technique (bucket facts f.technique) ∈ memoriesOf facts :=
    mem_memoriesOf.mpr ⟨jobs_ne_nil hget, rfl⟩
  constructor
  · intro hall hadds
    have hmemory : memoryOf f.technique (bucket (facts ++ [f]) f.technique) ∈ memoriesOf (facts ++ [f]) :=
      mem_memoriesOf.mpr ⟨jobs_ne_nil hnew, rfl⟩
    obtain ⟨m, hm, hless⟩ := hall _ hmemory
    have htechnique : m.technique = f.technique := hless.technique.symm
    have heq := (mem_memoriesOf.mp hm).2
    rw [htechnique] at heq
    have hcount := hless.sourceCount
    rw [heq] at hcount
    exact hsources.mp hcount hadds
  · intro hadds m' hm'
    by_cases htechnique : m'.technique = f.technique
    · have heq := (mem_memoriesOf.mp hm').2
      rw [htechnique] at heq
      refine ⟨_, hold, ?_⟩
      rw [heq]
      exact noMore_of_buckets hattempts.le hsuccesses.le hfailures.le hinconclusive.le (hsources.mpr hadds)
    · have hm := memory_of_perm (bucket_other hget htechnique) hm' rfl
      exact ⟨m', hm, NoMore.refl hm⟩

/-! ## A job that is taken out of account -/

theorem get?_blocked (facts : List Fact) (blocked : List (String × String)) (k : String × String) :
    (attemptsOf (facts.filter fun f => decide (f.key ∉ blocked))).get? k = if k ∈ blocked then none else (attemptsOf facts).get? k := by
  rw [attemptsOf, attemptsOf, get?_groupBy, get?_groupBy]
  have hfilter : (facts.filter fun f => decide (f.key ∉ blocked)).filter (fun f => decide (f.key = k)) =
      if k ∈ blocked then [] else facts.filter fun f => decide (f.key = k) := by
    rw [List.filter_filter]
    split
    · rename_i hk
      refine List.filter_eq_nil_iff.mpr fun f _ hboth => ?_
      rw [Bool.and_eq_true, decide_eq_true_eq, decide_eq_true_eq] at hboth
      exact hboth.2 (hboth.1 ▸ hk)
    · rename_i hk
      refine List.filter_congr fun f _ => ?_
      by_cases hkey : f.key = k
      · rw [decide_eq_true hkey, decide_eq_true (hkey ▸ hk : f.key ∉ blocked)]
        rfl
      · rw [decide_eq_false hkey, Bool.false_and]
  rw [hfilter]
  by_cases hk : k ∈ blocked
  · rw [if_pos hk, if_pos rfl, if_pos hk]
  · rw [if_neg hk, if_neg hk]

/-- Jobs that are taken out of account leave no number of any technique greater. -/
theorem blocked_noMore (facts : List Fact) (blocked : List (String × String)) {m' : TechniqueMemory}
    (hm' : m' ∈ memoriesOf (facts.filter fun f => decide (f.key ∉ blocked))) : ∃ m ∈ memoriesOf facts, NoMore m' m := by
  obtain ⟨hne, heq⟩ := mem_memoriesOf.mp hm'
  generalize m'.technique = technique at hne heq
  subst heq
  have hsublist : ∀ e ∈ jobs (facts.filter fun f => decide (f.key ∉ blocked)) technique, e ∈ jobs facts technique := by
    intro e he
    obtain ⟨hget, htechnique⟩ := mem_jobs.mp he
    rw [get?_blocked] at hget
    split at hget
    · cases hget
    · exact mem_jobs.mpr ⟨hget, htechnique⟩
  have hsubperm : ∀ p : Entry → Bool, ((jobs (facts.filter fun f => decide (f.key ∉ blocked)) technique).filter p).length ≤
      ((jobs facts technique).filter p).length := by
    intro p
    refine (List.subperm_of_subset ((nodup_jobs _ _).filter p) fun e he => ?_).length_le
    obtain ⟨hmem, hp⟩ := List.mem_filter.mp he
    exact List.mem_filter.mpr ⟨hsublist e hmem, hp⟩
  obtain ⟨hattempts, hsuccesses, hfailures, hinconclusive⟩ := bucket_counts (facts.filter fun f => decide (f.key ∉ blocked)) technique
  obtain ⟨hattempts', hsuccesses', hfailures', hinconclusive'⟩ := bucket_counts facts technique
  obtain ⟨e, he⟩ := List.exists_mem_of_ne_nil _ hne
  refine ⟨memoryOf technique (bucket facts technique), mem_memoriesOf.mpr ⟨List.ne_nil_of_mem (hsublist e he), rfl⟩, ?_⟩
  refine noMore_of_buckets ?_ ?_ ?_ ?_ (Finset.card_le_card fun s hs => ?_)
  · rw [hattempts, hattempts']
    exact (List.subperm_of_subset (nodup_jobs _ _) hsublist).length_le
  · rw [hsuccesses, hsuccesses']
    exact hsubperm _
  · rw [hfailures, hfailures']
    exact hsubperm _
  · rw [hinconclusive, hinconclusive']
    exact hsubperm _
  · rw [bucket, (foldl_count _ _).2.2.2.2] at hs ⊢
    rcases hs with hs | ⟨e, he, hs⟩
    · exact .inl hs
    · exact .inr ⟨e, hsublist e he, hs⟩

theorem nodup_techniques (facts : List Fact) : ((memoriesOf facts).map (·.technique)).Nodup := by
  have hperm : ((memoriesOf facts).map (·.technique)).Perm ((bucketsOf (attemptsOf facts)).entries.map (·.1)) := by
    have hsorted : (memoriesOf facts).Perm ((bucketsOf (attemptsOf facts)).entries.map fun e => memoryOf e.1 e.2) := perm_sortByKey
    have hmap := hsorted.map TechniqueMemory.technique
    rw [List.map_map] at hmap
    exact hmap
  exact hperm.nodup_iff.mpr (bucketsOf (attemptsOf facts)).nodup

/-- Without new techniques the memory is not longer. -/
theorem length_memoriesOf_le (h : ∀ m' ∈ memoriesOf facts', ∃ m ∈ memoriesOf facts, m'.technique = m.technique) :
    (memoriesOf facts').length ≤ (memoriesOf facts).length := by
  have hle : ((memoriesOf facts').map (·.technique)).length ≤ ((memoriesOf facts).map (·.technique)).length := by
    refine (List.subperm_of_subset (nodup_techniques facts') fun t ht => ?_).length_le
    obtain ⟨m', hm', rfl⟩ := List.mem_map.mp ht
    obtain ⟨m, hm, heq⟩ := h m' hm'
    exact List.mem_map.mpr ⟨m, hm, heq.symm⟩
  rwa [List.length_map, List.length_map] at hle

/-- The techniques after a report are those of before. -/
theorem technique_report (h : ∃ g ∈ facts, g.key = f.key) {m' : TechniqueMemory} (hm' : m' ∈ memoriesOf (facts ++ [f])) :
    ∃ m ∈ memoriesOf facts, m'.technique = m.technique := by
  obtain ⟨g, hg, hkey⟩ := h
  obtain ⟨a, hget, -⟩ := attempt_of_fact hg
  rw [hkey] at hget
  by_cases htechnique : m'.technique = f.technique
  · exact ⟨memoryOf f.technique (bucket facts f.technique), mem_memoriesOf.mpr ⟨jobs_ne_nil hget, rfl⟩, htechnique⟩
  · exact ⟨m', memory_of_perm (bucket_other hget htechnique) hm' rfl, rfl⟩

/-! ## What evidence reports -/

variable {env : LearningEnv} {evidence evidence' : List Observation} {scope scope' : Option (List String)} {o : Observation}

theorem reported_perm (hevidence : evidence'.Perm evidence) (hscope : ∀ o, isScoped scope' o = isScoped scope o) :
    (reported env evidence' scope').Perm (reported env evidence scope) := by
  have hsame : isScoped scope' = isScoped scope := funext hscope
  have hblocked : ∀ k, k ∈ outOfScopeJobs env evidence' scope' ↔ k ∈ outOfScopeJobs env evidence scope := by
    intro k
    rw [outOfScopeJobs, outOfScopeJobs, hsame]
    exact ((hevidence.filter _).filterMap _).mem_iff
  have hfilter : (fun f : Fact => decide (f.key ∉ outOfScopeJobs env evidence' scope')) =
      fun f => decide (f.key ∉ outOfScopeJobs env evidence scope) := by
    funext f
    rw [decide_eq_decide, hblocked]
  rw [reported, reported, hfilter, hsame]
  exact ((hevidence.filter _).filterMap _).filter _

theorem filter_scope (h : ∀ x ∈ evidence, isScoped scope' x = isScoped scope x) :
    evidence.filter (isScoped scope') = evidence.filter (isScoped scope) ∧
      (evidence.filter fun x => !isScoped scope' x) = evidence.filter fun x => !isScoped scope x :=
  ⟨List.filter_congr h, List.filter_congr fun x hx => by rw [h x hx]⟩

/-- Evidence of the origin adds what it reports, unless its job is out of account. -/
theorem reported_scoped (h : ∀ x ∈ evidence, isScoped scope' x = isScoped scope x) (ho : isScoped scope' o = true) :
    reported env (evidence ++ [o]) scope' = reported env evidence scope ++
      (fact? env o).toList.filter fun f => decide (f.key ∉ outOfScopeJobs env evidence scope) := by
  obtain ⟨hfilter, hrest⟩ := filter_scope h
  have hout : outOfScopeJobs env (evidence ++ [o]) scope' = outOfScopeJobs env evidence scope := by
    rw [outOfScopeJobs, List.filter_append, hrest, List.filter_cons_of_neg (by rw [ho]; decide), List.filter_nil, List.append_nil,
      outOfScopeJobs]
  rw [reported, hout, List.filter_append, hfilter, List.filter_cons_of_pos ho, List.filter_nil, List.filterMap_append, List.filter_append]
  cases hfact : fact? env o <;> simp [hfact, reported]

/-- Evidence outside the origin takes its job out of account. -/
theorem reported_unscoped (h : ∀ x ∈ evidence, isScoped scope' x = isScoped scope x) (ho : isScoped scope' o = false) :
    reported env (evidence ++ [o]) scope' =
      (reported env evidence scope).filter fun f => decide (f.key ∉ (blocked? env o).toList) := by
  obtain ⟨hfilter, hrest⟩ := filter_scope h
  have hout : outOfScopeJobs env (evidence ++ [o]) scope' = outOfScopeJobs env evidence scope ++ (blocked? env o).toList := by
    rw [outOfScopeJobs, List.filter_append, hrest, List.filter_cons_of_pos (by rw [ho]; rfl), List.filter_nil, List.filterMap_append,
      outOfScopeJobs]
    cases hblocked : blocked? env o <;> simp [hblocked]
  rw [reported, hout, List.filter_append, hfilter, List.filter_cons_of_neg (by rw [ho]; decide), List.filter_nil, List.append_nil, reported,
    List.filter_filter]
  refine List.filter_congr fun f _ => ?_
  rw [← Bool.decide_and, decide_eq_decide, List.mem_append]
  tauto

/-! ## The evidence of an origin -/

variable {u : Unicode} {target : WebOrigin} {graph graph' : ObservationGraph}

/-- The walk over the ancestors sees only what is reached. -/
theorem lineage_congr {assets assets' : List String} (hassets : ∀ id, id ∈ assets ↔ id ∈ assets') {P : String → Prop}
    (hclosed : ∀ id x, P id → graph.items.get? id = some x → ∀ p ∈ x.parentIds, P p)
    (hget : ∀ id, P id → graph'.items.get? id = graph.items.get? id) (stack seen : List String) (met : Bool)
    (hstack : ∀ id ∈ stack, P id) :
    lineage u assets' target graph' stack seen met = lineage u assets target graph stack seen met := by
  fun_induction lineage u assets target graph stack seen met with
  | case1 seen met => rw [lineage]
  | case2 id stack seen met hseen ih =>
    rw [lineage, dif_pos hseen]
    exact ih fun x hx => hstack x (List.mem_cons_of_mem _ hx)
  | case3 id stack seen met hseen hnone =>
    rw [lineage, dif_neg hseen]
    split
    · rfl
    · rename_i x hx
      rw [hget id (hstack id List.mem_cons_self), hnone] at hx
      cases hx
  | case4 id stack seen met hseen x hx hasset hmem ih =>
    rw [lineage, dif_neg hseen]
    split
    · rename_i hnone
      rw [hget id (hstack id List.mem_cons_self), hx] at hnone
      cases hnone
    rename_i y hy
    rw [hget id (hstack id List.mem_cons_self), hx] at hy
    cases hy
    rw [if_pos hasset, if_pos ((hassets _).mp hmem)]
    exact ih fun z hz => hstack z (List.mem_cons_of_mem _ hz)
  | case5 id stack seen met hseen x hx hasset hmem =>
    rw [lineage, dif_neg hseen]
    split
    · rfl
    · rename_i y hy
      rw [hget id (hstack id List.mem_cons_self), hx] at hy
      cases hy
      rw [if_pos hasset, if_neg fun h => hmem ((hassets _).mpr h)]
  | case6 id stack seen met hseen x hx hasset hrejects =>
    rw [lineage, dif_neg hseen]
    split
    · rfl
    · rename_i y hy
      rw [hget id (hstack id List.mem_cons_self), hx] at hy
      cases hy
      rw [if_neg hasset, if_pos hrejects]
  | case7 id stack seen met hseen x hx hasset hrejects ih =>
    rw [lineage, dif_neg hseen]
    split
    · rename_i hnone
      rw [hget id (hstack id List.mem_cons_self), hx] at hnone
      cases hnone
    rename_i y hy
    rw [hget id (hstack id List.mem_cons_self), hx] at hy
    cases hy
    rw [if_neg hasset, if_neg hrejects]
    refine ih fun z hz => ?_
    rcases List.mem_append.mp hz with hz | hz
    · exact hclosed id x (hstack id List.mem_cons_self) hx z (List.mem_reverse.mp hz)
    · exact hstack z (List.mem_cons_of_mem _ hz)

theorem legacySingleAsset_iff : legacySingleAsset u graph target = true ↔
    ∃ asset, graph.byKind .asset = [asset] ∧ asset.id ∈ approved u graph target := by
  unfold legacySingleAsset
  constructor
  · intro h
    split at h
    · rename_i asset hsingle
      exact ⟨asset, hsingle, of_decide_eq_true h⟩
    · cases h
  · rintro ⟨asset, hsingle, hmem⟩
    rw [hsingle]
    exact decide_eq_true hmem

/-- Graphs with the same assets accept the same evidence, as far as its ancestors are the same. -/
theorem accepts_congr (hassets : (graph'.byKind .asset).Perm (graph.byKind .asset)) {P : String → Prop}
    (hclosed : ∀ id x, P id → graph.items.get? id = some x → ∀ p ∈ x.parentIds, P p)
    (hget : ∀ id, P id → graph'.items.get? id = graph.items.get? id) (ho : ∀ p ∈ o.parentIds, P p) :
    accepts u graph' target o = accepts u graph target o := by
  have happroved : ∀ id, id ∈ approved u graph target ↔ id ∈ approved u graph' target :=
    fun id => ((hassets.filter _).map _).mem_iff.symm
  have hlegacy : legacySingleAsset u graph' target = legacySingleAsset u graph target := by
    rw [Bool.eq_iff_iff, legacySingleAsset_iff, legacySingleAsset_iff]
    constructor
    · rintro ⟨asset, hsingle, hmem⟩
      rw [hsingle] at hassets
      exact ⟨asset, List.perm_singleton.mp hassets.symm, (happroved _).mpr hmem⟩
    · rintro ⟨asset, hsingle, hmem⟩
      rw [hsingle] at hassets
      exact ⟨asset, List.perm_singleton.mp hassets, (happroved _).mp hmem⟩
  rw [accepts, accepts, hlegacy,
    lineage_congr happroved hclosed hget _ _ _ fun p hp => ho p (List.mem_reverse.mp hp)]

/-! ## New evidence -/

/-- Every observation has its parents, as `add` requires. -/
def Complete (graph : ObservationGraph) : Prop := ∀ x ∈ graph.values, graph.missing x = []

/-- Evidence that `add` takes. -/
structure NewEvidence (graph : ObservationGraph) (o : Observation) : Prop where
  kind : o.kind = ObservationKind.evidence.word
  new : graph.items.get? o.id = none
  parents : graph.missing o = []

theorem mem_values_of_get? {id : String} {x : Observation} (h : graph.items.get? id = some x) : x ∈ graph.values :=
  List.mem_map.mpr ⟨(id, x), Dict.mem_entries.mpr h, rfl⟩

theorem get?_of_mem_values {x : Observation} (h : x ∈ graph.values) : graph.items.get? x.id = some x := by
  obtain ⟨⟨id, y⟩, hentry, rfl⟩ := List.mem_map.mp h
  have hid : id = y.id := graph.keyed _ hentry
  rw [← hid]
  exact Dict.mem_entries.mp hentry

namespace NewEvidence

theorem values_put (h : NewEvidence graph o) : (graph.put o).values = graph.values ++ [o] :=
  Dict.values_set_of_not_mem (Dict.get?_eq_none.mp h.new)

theorem evidence_put (h : NewEvidence graph o) : (graph.put o).byKind .evidence = graph.byKind .evidence ++ [o] := by
  have hone : [o].filter (fun x => decide (x.kind = ObservationKind.evidence.word)) = [o] :=
    List.filter_cons_of_pos (decide_eq_true h.kind)
  rw [ObservationGraph.byKind, h.values_put, List.filter_append, hone, ObservationGraph.byKind]

theorem assets_put (h : NewEvidence graph o) : (graph.put o).byKind .asset = graph.byKind .asset := by
  have hnone : [o].filter (fun x => decide (x.kind = ObservationKind.asset.word)) = [] := by
    refine List.filter_cons_of_neg ?_
    rw [h.kind]
    decide
  rw [ObservationGraph.byKind, h.values_put, List.filter_append, hnone, List.append_nil, ObservationGraph.byKind]

theorem get?_put {id : String} (h : NewEvidence graph o) (hid : (graph.items.get? id).isSome = true) :
    (graph.put o).items.get? id = graph.items.get? id := by
  have hne : id ≠ o.id := by
    rintro rfl
    rw [h.new] at hid
    cases hid
  exact Dict.get?_set_of_ne hne

/-- The evidence that was there is accepted as before. -/
theorem accepts_put (h : NewEvidence graph o) (hcomplete : Complete graph) {x : Observation} (hx : x ∈ graph.values) :
    accepts u (graph.put o) target x = accepts u graph target x := by
  have hparents : ∀ y ∈ graph.values, ∀ p ∈ y.parentIds, (graph.items.get? p).isSome = true := by
    intro y hy p hp
    obtain ⟨z, hz⟩ := ObservationGraph.missing_eq_nil.mp (hcomplete y hy) p hp
    rw [hz]
    rfl
  refine accepts_congr (by rw [h.assets_put]) (P := fun id => (graph.items.get? id).isSome = true) (fun id y _ hy => ?_)
    (fun id hid => h.get?_put hid) (hparents x hx)
  exact hparents y (mem_values_of_get? hy)

theorem isScoped_put (h : NewEvidence graph o) (hcomplete : Complete graph) {url : Option String}
    (hscope : scopeOf env graph url = .ok scope) (hscope' : scopeOf env (graph.put o) url = .ok scope') :
    ∀ x ∈ graph.byKind .evidence, isScoped scope' x = isScoped scope x := by
  intro x hx
  have hvalue : x ∈ graph.values := (List.mem_filter.mp hx).1
  unfold scopeOf at hscope hscope'
  split at hscope
  · cases hscope
    cases hscope'
    rfl
  · rename_i text
    cases horigin : origin env.unicode text.toList with
    | none =>
      rw [horigin] at hscope
      cases hscope
    | some target =>
      rw [horigin] at hscope
      dsimp only at hscope'
      rw [horigin] at hscope'
      cases hscope
      cases hscope'
      have hne : x.id ≠ o.id := by
        intro heq
        have hget := get?_of_mem_values hvalue
        rw [heq, h.new] at hget
        cases hget
      have hfilter : (graph.byKind .evidence).filter (accepts env.unicode (graph.put o) target) =
          (graph.byKind .evidence).filter (accepts env.unicode graph target) :=
        List.filter_congr fun y hy => h.accepts_put hcomplete (List.mem_filter.mp hy).1
      have hids : x.id ∈ scopedEvidenceIds env.unicode (graph.put o) target ↔ x.id ∈ scopedEvidenceIds env.unicode graph target := by
        rw [scopedEvidenceIds, h.evidence_put, List.filter_append, hfilter, List.map_append, List.mem_append, scopedEvidenceIds]
        refine ⟨fun hmem => hmem.elim id fun hnew => ?_, .inl⟩
        obtain ⟨y, hy, hid⟩ := List.mem_map.mp hnew
        rw [List.mem_singleton.mp (List.mem_filter.mp hy).1] at hid
        exact absurd hid.symm hne
      exact decide_eq_decide.mpr hids

end NewEvidence

/-- The order of the observations does not decide what is accepted. -/
theorem isScoped_perm (h : graph'.items.entries.Perm graph.items.entries) {url : Option String}
    (hscope : scopeOf env graph url = .ok scope) :
    ∃ scope', scopeOf env graph' url = .ok scope' ∧ ∀ x, isScoped scope' x = isScoped scope x := by
  have hget : ∀ id, graph'.items.get? id = graph.items.get? id := by
    intro id
    refine Option.ext fun x => ?_
    rw [← Dict.mem_entries, ← Dict.mem_entries, h.mem_iff]
  have hkind : ∀ kind, (graph'.byKind kind).Perm (graph.byKind kind) := fun kind => (h.map _).filter _
  unfold scopeOf at hscope ⊢
  split at hscope
  · cases hscope
    exact ⟨none, rfl, fun _ => rfl⟩
  · rename_i text
    cases horigin : origin env.unicode text.toList with
    | none =>
      rw [horigin] at hscope
      cases hscope
    | some target =>
      rw [horigin] at hscope
      cases hscope
      refine ⟨_, rfl, fun x => ?_⟩
      have haccepts : accepts env.unicode graph' target = accepts env.unicode graph target :=
        funext fun y => accepts_congr (hkind .asset) (P := fun _ => True) (fun _ _ _ _ _ _ => trivial) (fun id _ => hget id)
          fun _ _ => trivial
      have hids : (scopedEvidenceIds env.unicode graph' target).Perm (scopedEvidenceIds env.unicode graph target) := by
        rw [scopedEvidenceIds, haccepts, scopedEvidenceIds]
        exact ((hkind .evidence).filter _).map _
      exact decide_eq_decide.mpr hids.mem_iff

theorem build_eq_ok {limit : Int} {url : Option String} {memories : List TechniqueMemory}
    (h : buildLearningMemory env graph limit url = .ok memories) (hscope : scopeOf env graph url = .ok scope) :
    (1 ≤ limit ∧ limit ≤ 100) ∧ memories = (memoriesOf (reported env (graph.byKind .evidence) scope)).take limit.toNat := by
  unfold buildLearningMemory at h
  split at h
  · cases h
  rename_i hlimit
  rw [hscope] at h
  cases h
  exact ⟨not_not.mp hlimit, rfl⟩

/-- The memory is a fold over jobs. It does not depend on the order of the observations. A job that reports an outcome again makes no
number of its technique greater if and only if the report is not taken or adds no source. Contradictory observations of a job are
inconclusive, the outcomes add up to the attempts, and evidence outside the origin makes no number greater. -/
theorem learning_memory_fold (env : LearningEnv) {graph : ObservationGraph} (hcomplete : Complete graph) {limit : Int}
    {url : Option String} {memories : List TechniqueMemory} {scope : Option (List String)}
    (hbuild : buildLearningMemory env graph limit url = .ok memories) (hscope : scopeOf env graph url = .ok scope)
    (hlimit : ((memoriesOf (reported env (graph.byKind .evidence) scope)).length : Int) ≤ limit) :
    (∀ graph', graph'.items.entries.Perm graph.items.entries → buildLearningMemory env graph' limit url = .ok memories) ∧
    (∀ o f, NewEvidence graph o → fact? env o = some f →
      (∃ g ∈ reported env (graph.byKind .evidence) scope, g.key = f.key ∧ g.outcome = f.outcome) →
      ∀ scope' memories', scopeOf env (graph.put o) url = .ok scope' →
        buildLearningMemory env (graph.put o) limit url = .ok memories' →
        ((∀ m' ∈ memories', ∃ m ∈ memories, NoMore m' m) ↔
          ¬ (isScoped scope' o = true ∧ AddsSource (reported env (graph.byKind .evidence) scope) f))) ∧
    (∀ f ∈ reported env (graph.byKind .evidence) scope, ∀ g ∈ reported env (graph.byKind .evidence) scope, g.key = f.key →
      f.outcome ≠ g.outcome →
      ∃ a, (f.key, a) ∈ jobsWith (reported env (graph.byKind .evidence) scope) f.technique .inconclusive) ∧
    (∀ m ∈ memories, m.attempts = m.successes + m.failures + m.inconclusive ∧
      m.successes = (jobsWith (reported env (graph.byKind .evidence) scope) m.technique .success).length ∧
      m.failures = (jobsWith (reported env (graph.byKind .evidence) scope) m.technique .failure).length ∧
      m.inconclusive = (jobsWith (reported env (graph.byKind .evidence) scope) m.technique .inconclusive).length) ∧
    (∀ o, NewEvidence graph o → ∀ scope' memories', scopeOf env (graph.put o) url = .ok scope' →
      buildLearningMemory env (graph.put o) limit url = .ok memories' → isScoped scope' o = false →
      ∀ m' ∈ memories', ∃ m ∈ memories, NoMore m' m) := by
  obtain ⟨hrange, hmemories⟩ := build_eq_ok hbuild hscope
  rw [List.take_of_length_le (by omega)] at hmemories
  subst hmemories
  refine ⟨?_, ?_, ?_, ?_, ?_⟩
  · intro graph' hperm
    obtain ⟨scope', hscope', hsame⟩ := isScoped_perm hperm hscope
    have hevidence : (graph'.byKind .evidence).Perm (graph.byKind .evidence) := (hperm.map _).filter _
    have hreported : (reported env (graph'.byKind .evidence) scope').Perm (reported env (graph.byKind .evidence) scope) :=
      reported_perm hevidence hsame
    have heq := memoriesOf_perm hreported
    have htake : (memoriesOf (reported env (graph'.byKind .evidence) scope')).take limit.toNat =
        memoriesOf (reported env (graph.byKind .evidence) scope) := by
      rw [heq]
      exact List.take_of_length_le (by omega)
    rw [buildLearningMemory, if_neg (not_not.mpr hrange), hscope']
    exact congrArg Except.ok htake
  · intro o f hnew hfact hagain scope' memories' hscope' hbuild'
    have hsame := hnew.isScoped_put hcomplete hscope hscope'
    obtain ⟨-, hmemories'⟩ := build_eq_ok hbuild' hscope'
    rw [hnew.evidence_put] at hmemories'
    cases htaken : isScoped scope' o with
    | false =>
      rw [reported_unscoped hsame htaken] at hmemories'
      refine ⟨fun _ h => Bool.noConfusion h.1, fun _ m' hm' => ?_⟩
      rw [hmemories'] at hm'
      exact blocked_noMore _ _ (List.mem_of_mem_take hm')
    | true =>
      obtain ⟨g, hg, hkey, houtcome⟩ := hagain
      have hcounted : f.key ∉ outOfScopeJobs env (graph.byKind .evidence) scope := by
        rw [← hkey]
        exact of_decide_eq_true (List.mem_filter.mp hg).2
      have hreported : reported env (graph.byKind .evidence ++ [o]) scope' = reported env (graph.byKind .evidence) scope ++ [f] := by
        have hone : [f].filter (fun f => decide (f.key ∉ outOfScopeJobs env (graph.byKind .evidence) scope)) = [f] :=
          List.filter_cons_of_pos (decide_eq_true hcounted)
        rw [reported_scoped hsame htaken, hfact, Option.toList_some, hone]
      have hlength := length_memoriesOf_le fun m' hm' => technique_report ⟨g, hg, hkey⟩ hm'
      rw [hreported, List.take_of_length_le (by omega)] at hmemories'
      rw [hmemories', report_again ⟨g, hg, hkey, houtcome⟩]
      simp
  · exact fun f hf g hg hkey hne => contradiction_inconclusive hf hg hkey hne
  · intro m hm
    obtain ⟨hattempts, hsuccesses, hfailures, hinconclusive⟩ :=
      bucket_counts (reported env (graph.byKind .evidence) scope) m.technique
    have hsplit := length_split (jobs (reported env (graph.byKind .evidence) scope) m.technique)
    have heq := (mem_memoriesOf.mp hm).2
    generalize m.technique = technique at *
    subst heq
    refine ⟨?_, hsuccesses, hfailures, hinconclusive⟩
    simp only [memoryOf, hattempts, hsuccesses, hfailures, hinconclusive, jobsWith]
    exact hsplit
  · intro o hnew scope' memories' hscope' hbuild' htaken m' hm'
    have hsame := hnew.isScoped_put hcomplete hscope hscope'
    obtain ⟨-, hmemories'⟩ := build_eq_ok hbuild' hscope'
    rw [hnew.evidence_put, reported_unscoped hsame htaken] at hmemories'
    rw [hmemories'] at hm'
    exact blocked_noMore _ _ (List.mem_of_mem_take hm')

/-! ## Two jobs of one source -/

/-- Printable ASCII characters, and the values that are texts. -/
def sampleEnv : LearningEnv where
  unicode := ExecutionContract.sampleUnicode
  printable c := decide (32 ≤ c.toNat ∧ c.toNat < 127)
  str value := match value with
    | .str s => s
    | _ => ""
  str_str _ := rfl

def sampleAsset : Observation := ⟨"asset:shop", "asset", "https://shop.example", "recon", [], []⟩

/-- A source reports that a job succeeded. -/
def sampleEvidence (id job source : String) : Observation :=
  ⟨id, "evidence", "reflected marker", source, [],
    [("technique", .str "reflection"), ("outcome", .str "success"), ("job_id", .str job)]⟩

/-- Two jobs, both reported by the validator. -/
def sampleGraph : ObservationGraph :=
  ((ObservationGraph.empty.put sampleAsset).put (sampleEvidence "evidence:1" "job-1" "validator")).put
    (sampleEvidence "evidence:2" "job-2" "validator")

/-- The first job is reported by the browser as well. -/
def sampleAgain : Observation := sampleEvidence "evidence:3" "job-1" "browser"

/-- The numbers of a memory. -/
def numbersOf (memories : Except PyError (List TechniqueMemory)) : Option (List (String × Nat × Nat × Nat)) :=
  memories.toOption.map fun l => l.map fun m => (m.technique, m.attempts, m.successes, m.sourceCount)

/-- A job that is reported by a second component gives its technique a second source. -/
theorem second_component_counts :
    numbersOf (buildLearningMemory sampleEnv sampleGraph 50 (some "https://shop.example/")) = some [("reflection", 2, 2, 1)] ∧
      numbersOf (buildLearningMemory sampleEnv (sampleGraph.put sampleAgain) 50 (some "https://shop.example/")) =
        some [("reflection", 2, 2, 2)] := by
  decide +kernel

theorem complete_sampleGraph : Complete sampleGraph := by
  intro x hx
  have hvalues : sampleGraph.values =
    [sampleAsset, sampleEvidence "evidence:1" "job-1" "validator", sampleEvidence "evidence:2" "job-2" "validator"] := rfl
  have hparents : x.parentIds = [] := by
    rw [hvalues] at hx
    rcases List.mem_cons.mp hx with rfl | hx
    · rfl
    · rcases List.mem_cons.mp hx with rfl | hx
      · rfl
      · rw [List.mem_singleton.mp hx]
        rfl
  rw [ObservationGraph.missing, hparents, List.filter_nil]

theorem learning_memory_fold_sample : ∃ memories scope,
    buildLearningMemory sampleEnv sampleGraph 50 (some "https://shop.example/") = .ok memories ∧ memories.length = 1 ∧
      scopeOf sampleEnv sampleGraph (some "https://shop.example/") = .ok scope ∧
      (∀ graph', graph'.items.entries.Perm sampleGraph.items.entries →
        buildLearningMemory sampleEnv graph' 50 (some "https://shop.example/") = .ok memories) ∧
      ∀ m ∈ memories, m.attempts = m.successes + m.failures + m.inconclusive := by
  have hnumbers : numbersOf (buildLearningMemory sampleEnv sampleGraph 50 (some "https://shop.example/")) =
    some [("reflection", 2, 2, 1)] := by decide +kernel
  cases hscope : scopeOf sampleEnv sampleGraph (some "https://shop.example/") with
  | error e =>
    rw [buildLearningMemory, if_neg (by decide), hscope] at hnumbers
    cases hnumbers
  | ok scope =>
    cases hbuild : buildLearningMemory sampleEnv sampleGraph 50 (some "https://shop.example/") with
    | error e =>
      rw [hbuild] at hnumbers
      cases hnumbers
    | ok memories =>
      rw [hbuild] at hnumbers
      have hlength := congrArg List.length (Option.some.inj hnumbers)
      rw [List.length_map] at hlength
      have htake := congrArg List.length (build_eq_ok hbuild hscope).2
      rw [hlength, List.length_take, List.length_singleton] at htake
      have hfifty : (50 : Int).toNat = 50 := rfl
      rw [hfifty] at htake
      obtain ⟨horder, -, -, hsum, -⟩ := learning_memory_fold sampleEnv complete_sampleGraph hbuild hscope (by omega)
      exact ⟨memories, scope, rfl, hlength, rfl, horder, fun m hm => (hsum m hm).1⟩

end LearningMemory

end XbowPerso
