import XbowPerso.HypothesisEngine
import XbowPerso.Lemmas.ObservationGraph
import XbowPerso.Lib.PairedLists
import XbowPerso.Theorems.ReconPriority
import XbowPerso.Theorems.ReviewEvidence

/-!
# Hypotheses are a function of the observations

What the engine asks of a graph depends on what is in it and not on the order, and so do the candidates up to their order. Candidates of
one key make one hypothesis, whatever their order: its lists are the first of a union, its confidence and its depth the greatest ones.
-/

namespace XbowPerso

namespace HypothesisEngine

open Binary64 (Finite)
open ExecutionContract (sortedSet)
open FirstOfSet (firsts firsts_congr firsts_append_firsts mem_of_mem_firsts)
open PairedLists (mapM_perm exists_of_mapM_ok)
open ReviewEvidence (scopeAllows completedReviews creditAll credit lineageWalk lineageHosts mem_creditAll)

variable {py : Python} {graph graph' : ObservationGraph} {scopeChecker : Option (String → Bool)}

/-! ## The same observations in another order -/

theorem get?_of_perm (h : graph'.values.Perm graph.values) (id : String) : graph'.items.get? id = graph.items.get? id := by
  refine Option.ext fun o => ?_
  constructor
  · intro hget
    obtain ⟨hmem, rfl⟩ := ObservationGraph.id_mem_of_get? hget
    exact ObservationGraph.mem_values.mp (h.mem_iff.mp hmem)
  · intro hget
    obtain ⟨hmem, rfl⟩ := ObservationGraph.id_mem_of_get? hget
    exact ObservationGraph.mem_values.mp (h.mem_iff.mpr hmem)

theorem byKind_perm (h : graph'.values.Perm graph.values) (kind : ObservationKind) : (graph'.byKind kind).Perm (graph.byKind kind) :=
  h.filter _

variable {u : Unicode} {id : String} {stack seen : List String} {hosts : List (List Char)}

theorem lineageWalk_missing (hseen : id ∉ seen)
    (hget : graph.items.get? id = none) : lineageWalk u graph (id :: stack) seen hosts = lineageWalk u graph stack (id :: seen) hosts := by
  rw [lineageWalk, dif_neg hseen]
  split
  · rfl
  · rename_i hsome
    rw [hget] at hsome
    cases hsome

variable {o : Observation}

theorem lineageWalk_invalid
    (hseen : id ∉ seen) (hget : graph.items.get? id = some o) (hhost : ReviewEvidence.originHost u o = none) :
    lineageWalk u graph (id :: stack) seen hosts = .error (.valueError "Invalid URL") := by
  rw [lineageWalk, dif_neg hseen]
  split
  · rename_i hnone
    rw [hget] at hnone
    cases hnone
  rename_i hsome
  rw [hget] at hsome
  cases hsome
  rw [hhost]

theorem lineageWalk_found
    {host : List Char} (hseen : id ∉ seen) (hget : graph.items.get? id = some o) (hhost : ReviewEvidence.originHost u o = some host) :
    lineageWalk u graph (id :: stack) seen hosts =
      lineageWalk u graph (o.parentIds.reverse ++ stack) (id :: seen) (if host = [] then hosts else host :: hosts) := by
  rw [lineageWalk, dif_neg hseen]
  split
  · rename_i hnone
    rw [hget] at hnone
    cases hnone
  rename_i hsome
  rw [hget] at hsome
  cases hsome
  rw [hhost]

/-- A walk looks observations up and does not ask for their order. -/
theorem lineageWalk_of_perm (u : Unicode) (h : graph'.values.Perm graph.values) (stack seen : List String) (hosts : List (List Char)) :
    lineageWalk u graph' stack seen hosts = lineageWalk u graph stack seen hosts := by
  induction stack, seen, hosts using ReviewEvidence.lineageWalk.induct u graph with
  | case1 seen hosts => rw [lineageWalk, lineageWalk]
  | case2 id stack seen hosts hseen ih => rw [lineageWalk, lineageWalk, dif_pos hseen, dif_pos hseen, ih]
  | case3 id stack seen hosts hseen hget ih =>
    rw [lineageWalk_missing hseen hget, lineageWalk_missing hseen ((get?_of_perm h id).trans hget), ih]
  | case4 id stack seen hosts hseen o hget hhost =>
    rw [lineageWalk_invalid hseen hget hhost, lineageWalk_invalid hseen ((get?_of_perm h id).trans hget) hhost]
  | case5 id stack seen hosts hseen o hget host hhost ih =>
    rw [lineageWalk_found hseen hget hhost, lineageWalk_found hseen ((get?_of_perm h id).trans hget) hhost]
    exact ih

theorem scopeAllows_of_perm (u : Unicode) (h : graph'.values.Perm graph.values) (id : String) :
    scopeAllows u graph' id scopeChecker = scopeAllows u graph id scopeChecker := by
  cases scopeChecker with
  | none => rfl
  | some check => rw [scopeAllows, scopeAllows, lineageHosts, lineageHosts, lineageWalk_of_perm u h]

theorem credit_of_perm (u : Unicode) (h : graph'.values.Perm graph.values) (evidence : Observation) :
    credit u graph' scopeChecker evidence = credit u graph scopeChecker evidence := by
  unfold credit
  simp only [scopeAllows_of_perm u h, get?_of_perm h]

/-- All the credits are taken when each is. -/
theorem creditAll_isOk (u : Unicode) (records : List Observation) :
    (∃ reviewed, creditAll u graph scopeChecker records = .ok reviewed) ↔
      ∀ e ∈ records, ∃ credited, credit u graph scopeChecker e = .ok credited := by
  induction records with
  | nil => exact ⟨fun _ _ h => absurd h List.not_mem_nil, fun _ => ⟨[], rfl⟩⟩
  | cons e records ih =>
    rw [List.forall_mem_cons, ← ih, creditAll]
    cases credit u graph scopeChecker e with
    | error err =>
      constructor
      · rintro ⟨_, h⟩
        cases h
      · rintro ⟨⟨_, h⟩, -⟩
        cases h
    | ok credited =>
      cases creditAll u graph scopeChecker records with
      | error err =>
        constructor
        · rintro ⟨_, h⟩
          cases h
        · rintro ⟨-, _, h⟩
          cases h
      | ok rest => exact ⟨fun _ => ⟨⟨_, rfl⟩, _, rfl⟩, fun _ => ⟨_, rfl⟩⟩

variable {reviewed : List (String × String)}

theorem completedReviews_of_perm (h : graph'.values.Perm graph.values)
    (hreviewed : completedReviews u graph scopeChecker = .ok reviewed) :
    ∃ reviewed', completedReviews u graph' scopeChecker = .ok reviewed' ∧ ∀ entry, entry ∈ reviewed' ↔ entry ∈ reviewed := by
  have hperm := byKind_perm h .evidence
  have hok := (creditAll_isOk u _).mp ⟨_, hreviewed⟩
  have hok' : ∃ reviewed', creditAll u graph' scopeChecker (graph'.byKind .evidence) = .ok reviewed' := by
    refine (creditAll_isOk u _).mpr fun e he => ?_
    rw [credit_of_perm u h]
    exact hok e (hperm.mem_iff.mp he)
  obtain ⟨reviewed', hreviewed'⟩ := hok'
  refine ⟨reviewed', hreviewed', fun entry => ?_⟩
  obtain ⟨kind, id⟩ := entry
  rw [mem_creditAll hreviewed', mem_creditAll hreviewed]
  simp only [credit_of_perm u h, hperm.mem_iff]

theorem findingById?_of_perm (h : graph'.values.Perm graph.values) (id : String) :
    graph'.findingById? id = graph.findingById? id := by
  refine Option.ext fun o => ?_
  have hmem := (byKind_perm h .finding).mem_iff (a := o)
  constructor
  · intro hfind
    have hid : o.id = id := by simpa using List.find?_some hfind
    rw [← hid]
    exact ObservationGraph.findingById?_of_mem (hmem.mp (List.mem_of_find?_eq_some hfind))
  · intro hfind
    have hid : o.id = id := by simpa using List.find?_some hfind
    rw [← hid]
    exact ObservationGraph.findingById?_of_mem (hmem.mpr (List.mem_of_find?_eq_some hfind))

theorem mem_observed_of_perm (h : graph'.values.Perm graph.values) (id : String) :
    id ∈ graph'.analyzeValidationState.observedIndependentFindingIds ↔ id ∈ graph.analyzeValidationState.observedIndependentFindingIds := by
  have hobserves : graph'.observesIndependently = graph.observesIndependently := by
    funext validation parent
    unfold ObservationGraph.observesIndependently
    rw [findingById?_of_perm h]
  show id ∈ graph'.validated graph'.observesIndependently ↔ id ∈ graph.validated graph.observesIndependently
  rw [hobserves]
  unfold ObservationGraph.validated
  rw [List.mem_flatMap, List.mem_flatMap]
  simp only [(byKind_perm h .validation).mem_iff]

/-! ## The candidates -/

theorem passItems_perm (h : graph'.values.Perm graph.values) : (passItems graph').Perm (passItems graph) :=
  List.Perm.flatMap_left _ fun kind _ => (byKind_perm h kind).map _

theorem ok_bind {ε α β : Type} (a : α) (f : α → Except ε β) : (Except.ok a >>= f) = f a := rfl

theorem collected_eq_ok {candidates : List Hypothesis} (h : collected py graph scopeChecker = .ok candidates) :
    ∃ reviewed, completedReviews py.unicode graph scopeChecker = .ok reviewed ∧
      ∃ out, (passItems graph).mapM (visit py graph scopeChecker reviewed) = .ok out ∧ candidates = out.flatten := by
  unfold collected at h
  cases hreviewed : completedReviews py.unicode graph scopeChecker with
  | error e =>
    rw [hreviewed] at h
    cases h
  | ok reviewed =>
    cases hout : (passItems graph).mapM (visit py graph scopeChecker reviewed) with
    | error e =>
      rw [hreviewed, ok_bind, hout] at h
      cases h
    | ok out =>
      rw [hreviewed, ok_bind, hout] at h
      cases h
      exact ⟨reviewed, rfl, out, hout, rfl⟩

theorem collected_of_ok {out : List (List Hypothesis)}
    (hreviewed : completedReviews py.unicode graph scopeChecker = .ok reviewed)
    (hout : (passItems graph).mapM (visit py graph scopeChecker reviewed) = .ok out) :
    collected py graph scopeChecker = .ok out.flatten := by
  unfold collected
  rw [hreviewed, ok_bind, hout]
  rfl

/-- The same observations give the same candidates. -/
theorem collected_perm {candidates : List Hypothesis} (h : graph'.values.Perm graph.values)
    (hcandidates : collected py graph scopeChecker = .ok candidates) :
    ∃ candidates', collected py graph' scopeChecker = .ok candidates' ∧ candidates'.Perm candidates := by
  obtain ⟨reviewed, hreviewed, out, hout, rfl⟩ := collected_eq_ok hcandidates
  obtain ⟨reviewed', hreviewed', hmem⟩ := completedReviews_of_perm h hreviewed
  obtain ⟨out', hout', hperm⟩ := mapM_perm (passItems_perm h) hout
  refine ⟨out'.flatten, collected_of_ok hreviewed' ?_, hperm.flatten⟩
  have hreviews : (fun (kind : HypothesisKind) (id : String) => reviewed'.any fun entry => decide (entry = (kind.word, id))) =
      fun kind id => reviewed.any fun entry => decide (entry = (kind.word, id)) := by
    funext kind id
    rw [Bool.eq_iff_iff, List.any_eq_true, List.any_eq_true]
    simp only [hmem]
  unfold visit at hout' ⊢
  simp only [scopeAllows_of_perm py.unicode h, hreviews, mem_observed_of_perm h]
  exact hout'

/-! ## Confidences -/

/-- A number that is not below zero; zero has the plus sign. -/
def Nonnegative (x : Binary64) : Prop := x = .infinity false ∨ ∃ f : Finite, x = .finite f ∧ f.negative = false

theorem nonnegative_ofRatio (n : Nat) {d : Nat} (hd : 0 < d) : Nonnegative (.ofRatio false n hd) := by
  unfold Binary64.ofRatio
  split
  · exact .inr ⟨_, rfl, rfl⟩
  · exact .inl rfl

theorem nonnegative_decimal (n digits : Nat) : Nonnegative (.decimal n digits) := by
  unfold Binary64.decimal Binary64.ofQuotient
  exact nonnegative_ofRatio _ _

variable {x : Binary64}

theorem Nonnegative.roundDecimals (h : Nonnegative x) (digits : Nat) : Nonnegative (.roundDecimals digits x) := by
  rcases h with rfl | ⟨f, rfl, hf⟩
  · exact .inl rfl
  · rw [Binary64.roundDecimals, hf]
    exact nonnegative_ofRatio _ _

variable {y : Binary64}

theorem Nonnegative.add (hx : Nonnegative x) (hy : Nonnegative y) : Nonnegative (.add x y) := by
  rcases hx with rfl | ⟨f, rfl, hf⟩
  · rcases hy with rfl | ⟨g, rfl, -⟩
    · exact .inl rfl
    · exact .inl rfl
  · rcases hy with rfl | ⟨g, rfl, hg⟩
    · exact .inl rfl
    · have hneg : (⟨!g.negative, g.units, g.representable, g.units_lt⟩ : Finite).toInt = -g.units := by
        rw [Finite.toInt, hg]
        rfl
      have hle : ¬ f.toInt < -(g.units : Int) := by
        rw [Finite.toInt_of_pos hf]
        omega
      rw [Binary64.add, Binary64.neg, Binary64.sub, hneg, hf, decide_eq_false hle]
      exact nonnegative_ofRatio _ _

theorem nonnegative_mul {f g : Finite} (hf : f.negative = false) (hg : g.negative = false) :
    Nonnegative ((Binary64.finite f).mul (.finite g)) := by
  rw [Binary64.mul_finite, hf, hg]
  exact nonnegative_ofRatio _ _

theorem clamped (x : Binary64) : ∃ f : Finite, Binary64.pyMax .zero (.pyMin .one x) = .finite f ∧ f.negative = false := by
  have hmin : (Binary64.pyMin .one x).le .one = true := by
    unfold Binary64.pyMin
    split
    · rename_i h
      exact ReconPriority.le_of_lt h
    · decide +kernel
  unfold Binary64.pyMax
  split
  · rename_i h
    obtain ⟨f, hf, hsign, -⟩ := ReconPriority.fraction_of_between h hmin
    exact ⟨f, hf, hsign⟩
  · exact ⟨_, rfl, rfl⟩

theorem nonnegative_protection (x : Binary64) : Nonnegative (protectionConfidence x) := by
  obtain ⟨f, hf, hsign⟩ := clamped x
  obtain ⟨g, hg, hgsign, -⟩ := ReconPriority.finite_decimal 20 2 0 (by decide) (by decide +kernel)
  unfold protectionConfidence
  rw [hf, hg]
  exact ((nonnegative_decimal 35 2).add (nonnegative_mul hsign hgsign)).roundDecimals 4

theorem Nonnegative.ne_nan (h : Nonnegative x) : x ≠ .nan := by
  rcases h with rfl | ⟨f, rfl, -⟩ <;> exact fun h => nomatch h

theorem Nonnegative.le_refl (h : Nonnegative x) : x.le x = true := by
  rcases h with rfl | ⟨f, rfl, -⟩
  · rfl
  · exact Binary64.le_finite.mpr (Int.le_refl _)

theorem Nonnegative.le_antisymm (hx : Nonnegative x) (hy : Nonnegative y) (hxy : x.le y = true) (hyx : y.le x = true) :
    x = y := by
  rcases hx with rfl | ⟨f, rfl, hf⟩
  · rcases hy with rfl | ⟨g, rfl, -⟩
    · rfl
    · cases hxy
  · rcases hy with rfl | ⟨g, rfl, hg⟩
    · cases hyx
    · have hint := Int.le_antisymm (Binary64.le_finite.mp hxy) (Binary64.le_finite.mp hyx)
      rw [Finite.toInt_of_pos hf, Finite.toInt_of_pos hg] at hint
      cases f
      cases g
      cases hf
      cases hg
      cases Int.ofNat.inj hint
      rfl

theorem pyMax_spec (hx : Nonnegative x) (hy : Nonnegative y) :
    (Binary64.pyMax x y = x ∨ Binary64.pyMax x y = y) ∧ x.le (.pyMax x y) = true ∧ y.le (.pyMax x y) = true := by
  unfold Binary64.pyMax
  split
  · rename_i hlt
    exact ⟨.inr rfl, ReconPriority.le_of_lt hlt, hy.le_refl⟩
  · rename_i hlt
    exact ⟨.inl rfl, hx.le_refl, Binary64.le_of_not_lt hy.ne_nan hx.ne_nan (Bool.eq_false_iff.mpr hlt)⟩

/-! ## What a candidate says -/

/-- A candidate is suggested by an observation that the scope allows. -/
def SuggestedBy (py : Python) (graph : ObservationGraph) (scopeChecker : Option (String → Bool)) (c : Hypothesis) : Prop :=
  ∃ kind target confidence names o, c = suggested kind target confidence o names ∧ Nonnegative confidence ∧
    scopeAllows py.unicode graph o.id scopeChecker = .ok true

theorem visit_spec {item : ObservationKind × Observation} {out : List Hypothesis}
    (h : visit py graph scopeChecker reviewed item = .ok out) : ∀ c ∈ out, SuggestedBy py graph scopeChecker c := by
  unfold visit candidatesOf at h
  beta_reduce at h
  cases hscope : scopeAllows py.unicode graph item.2.id scopeChecker with
  | error e =>
    rw [hscope] at h
    cases h
  | ok allowed =>
    rw [hscope, ok_bind] at h
    cases allowed with
    | false =>
      cases h
      exact fun _ hmem => absurd hmem List.not_mem_nil
    | true =>
      rw [if_neg (by decide)] at h
      have hone : ∀ kind target confidence names, Nonnegative confidence →
          SuggestedBy py graph scopeChecker (suggested kind target confidence item.2 names) :=
        fun kind target confidence names hconfidence => ⟨kind, target, confidence, names, item.2, rfl, hconfidence, hscope⟩
      intro c hc
      split at h
      · unfold endpointCandidates at h
        split at h
        · cases h
          cases hc
        split at h
        · cases h
        cases h
        rcases List.mem_append.mp hc with hc | hc
        · split at hc
          · rw [List.mem_singleton.mp hc]
            exact hone _ _ _ _ (nonnegative_decimal _ _)
          · cases hc
        · split at hc
          · rw [List.mem_singleton.mp hc]
            exact hone _ _ _ _ (nonnegative_decimal _ _)
          · cases hc
      · unfold formCandidates at h
        split at h
        · cases h
          cases hc
        split at h
        · cases h
          cases hc
        cases hnames : inputNames py item.2 with
        | error e =>
          rw [hnames] at h
          cases h
        | ok names =>
          rw [hnames] at h
          cases h
          rw [List.mem_singleton.mp hc]
          refine hone _ _ _ _ ?_
          split <;> exact nonnegative_decimal _ _
      · cases h
        unfold technologyCandidates at hc
        split at hc
        · cases hc
        rw [List.mem_singleton.mp hc]
        exact hone _ _ _ _ (nonnegative_decimal _ _)
      · unfold wafCandidates at h
        split at h
        · cases h
          cases hc
        cases hread : statedConfidence py item.2 with
        | error e =>
          rw [hread] at h
          cases h
        | ok confidence =>
          rw [hread] at h
          cases h
          rw [List.mem_singleton.mp hc]
          exact hone _ _ _ _ (nonnegative_protection confidence)
      · cases h
        unfold findingCandidates at hc
        split at hc
        · cases hc
        rw [List.mem_singleton.mp hc]
        exact hone _ _ _ _ (nonnegative_decimal _ _)
      · cases h
        cases hc

theorem suggestedBy_of_collected {candidates : List Hypothesis} (h : collected py graph scopeChecker = .ok candidates) :
    ∀ c ∈ candidates, SuggestedBy py graph scopeChecker c := by
  obtain ⟨reviewed, -, out, hout, rfl⟩ := collected_eq_ok h
  intro c hc
  obtain ⟨part, hpart, hc⟩ := List.mem_flatten.mp hc
  obtain ⟨item, -, hvisit⟩ := exists_of_mapM_ok hout hpart
  exact visit_spec hvisit c hc

/-! ## What is found under a key -/

/-- What candidates of one key make together. -/
structure Merged (items : List Hypothesis) (h : Hypothesis) : Prop where
  reason : h.reason = h.kind.reason
  nextAction : h.nextAction = h.kind.nextAction
  confidence_mem : ∃ c ∈ items, c.confidence = h.confidence
  confidence_max : ∀ c ∈ items, c.confidence.le h.confidence = true
  evidenceIds : h.evidenceIds = (sortedSet (items.flatMap Hypothesis.evidenceIds)).take 32
  parameterNames : h.parameterNames = (sortedSet (items.flatMap Hypothesis.parameterNames)).take 64
  depth_mem : ∃ c ∈ items, c.dependencyDepth = h.dependencyDepth
  depth_max : ∀ c ∈ items, c.dependencyDepth ≤ h.dependencyDepth

/-- A hypothesis of the candidates of its key: the candidate itself where there is one only. -/
def UnionOf (items : List Hypothesis) (h : Hypothesis) : Prop := items = [h] ∨ (2 ≤ items.length ∧ Merged items h)

theorem take_sortedSet (n : Nat) (l : List String) : (sortedSet l).take n = firsts n l := rfl

/-- What candidates have by themselves. -/
structure Plain (c : Hypothesis) : Prop where
  reason : c.reason = c.kind.reason
  nextAction : c.nextAction = c.kind.nextAction
  confidence : Nonnegative c.confidence

variable {c : Hypothesis}

theorem SuggestedBy.plain (h : SuggestedBy py graph scopeChecker c) : Plain c := by
  obtain ⟨kind, target, confidence, names, o, rfl, hconfidence, -⟩ := h
  exact ⟨rfl, rfl, hconfidence⟩

theorem key_merged {p : Hypothesis} (h : p.key = c.key) : (merged p c).key = c.key := by
  unfold merged Hypothesis.key at *
  dsimp only
  split
  · rfl
  · exact h

variable {items : List Hypothesis}

theorem merged_merged {p : Hypothesis} (hp : Plain p) (hc : Plain c)
    (hconfidence_mem : ∃ x ∈ items, x.confidence = p.confidence) (hconfidence_max : ∀ x ∈ items, x.confidence.le p.confidence = true)
    (hids : firsts 32 (p.evidenceIds ++ c.evidenceIds) = firsts 32 (items.flatMap Hypothesis.evidenceIds ++ c.evidenceIds))
    (hnames : firsts 64 (p.parameterNames ++ c.parameterNames) = firsts 64 (items.flatMap Hypothesis.parameterNames ++ c.parameterNames))
    (hdepth_mem : ∃ x ∈ items, x.dependencyDepth = p.dependencyDepth) (hdepth_max : ∀ x ∈ items, x.dependencyDepth ≤ p.dependencyDepth) :
    Merged (items ++ [c]) (merged p c) := by
  obtain ⟨hmax, hple, hcle⟩ := pyMax_spec hp.confidence hc.confidence
  constructor
  · unfold merged
    dsimp only
    split
    · exact hc.reason
    · exact hp.reason
  · unfold merged
    dsimp only
    split
    · exact hc.nextAction
    · exact hp.nextAction
  · rcases hmax with hmax | hmax
    · obtain ⟨x, hx, heq⟩ := hconfidence_mem
      exact ⟨x, List.mem_append_left _ hx, heq.trans hmax.symm⟩
    · exact ⟨c, List.mem_append_right _ (List.mem_singleton.mpr rfl), hmax.symm⟩
  · intro x hx
    rcases List.mem_append.mp hx with hx | hx
    · exact Binary64.le_trans (hconfidence_max x hx) hple
    · rw [List.mem_singleton.mp hx]
      exact hcle
  · rw [take_sortedSet, List.flatMap_append, List.flatMap_singleton, ← hids]
    rfl
  · rw [take_sortedSet, List.flatMap_append, List.flatMap_singleton, ← hnames]
    rfl
  · rcases Nat.le_total p.dependencyDepth c.dependencyDepth with hle | hle
    · exact ⟨c, List.mem_append_right _ (List.mem_singleton.mpr rfl), (Nat.max_eq_right hle).symm⟩
    · obtain ⟨x, hx, heq⟩ := hdepth_mem
      exact ⟨x, List.mem_append_left _ hx, heq.trans (Nat.max_eq_left hle).symm⟩
  · intro x hx
    rcases List.mem_append.mp hx with hx | hx
    · exact (hdepth_max x hx).trans (Nat.le_max_left _ _)
    · rw [List.mem_singleton.mp hx]
      exact Nat.le_max_right _ _

variable {h : Hypothesis}

theorem UnionOf.plain (hitems : ∀ c ∈ items, Plain c) (hunion : UnionOf items h) :
    Plain h := by
  rcases hunion with rfl | ⟨-, hmerged⟩
  · exact hitems h (List.mem_singleton.mpr rfl)
  · obtain ⟨c, hc, heq⟩ := hmerged.confidence_mem
    exact ⟨hmerged.reason, hmerged.nextAction, heq ▸ (hitems c hc).confidence⟩

/-- A further candidate of the key. -/
theorem UnionOf.snoc {items : List Hypothesis} {p c : Hypothesis} (hitems : ∀ x ∈ items, Plain x) (hc : Plain c)
    (hunion : UnionOf items p) : UnionOf (items ++ [c]) (merged p c) := by
  have hp := hunion.plain hitems
  rcases hunion with rfl | ⟨hlength, hmerged⟩
  · refine .inr ⟨le_rfl, merged_merged hp hc ⟨p, List.mem_singleton.mpr rfl, rfl⟩ ?_ ?_ ?_ ⟨p, List.mem_singleton.mpr rfl, rfl⟩ ?_⟩
    · intro x hx
      rw [List.mem_singleton.mp hx]
      exact hp.confidence.le_refl
    · rw [List.flatMap_singleton]
    · rw [List.flatMap_singleton]
    · intro x hx
      rw [List.mem_singleton.mp hx]
  · refine .inr ⟨by rw [List.length_append]; omega, merged_merged hp hc hmerged.confidence_mem hmerged.confidence_max ?_ ?_
      hmerged.depth_mem hmerged.depth_max⟩
    · rw [hmerged.evidenceIds, take_sortedSet, firsts_append_firsts]
    · rw [hmerged.parameterNames, take_sortedSet, firsts_append_firsts]

/-- Candidates make one hypothesis in every order. -/
theorem UnionOf.unique {items' : List Hypothesis} {h' : Hypothesis} (hitems : ∀ c ∈ items, Plain c)
    (hperm : items'.Perm items) (hunion : UnionOf items h) (hunion' : UnionOf items' h') (hkey : h'.key = h.key) : h' = h := by
  rcases hunion with rfl | ⟨hlength, hmerged⟩
  · rcases hunion' with rfl | ⟨hlength', -⟩
    · exact List.singleton_perm_singleton.mp hperm
    · rw [hperm.length_eq] at hlength'
      cases hlength' with
      | step h => cases h
  · rcases hunion' with rfl | ⟨-, hmerged'⟩
    · rw [← hperm.length_eq] at hlength
      cases hlength with
      | step h => cases h
    · obtain ⟨hkind, htarget⟩ := Prod.mk.injEq .. ▸ hkey
      have hconfidence : h'.confidence = h.confidence := by
        obtain ⟨c, hc, heq⟩ := hmerged.confidence_mem
        obtain ⟨c', hc', heq'⟩ := hmerged'.confidence_mem
        have hle := hmerged.confidence_max c' (hperm.mem_iff.mp hc')
        have hle' := hmerged'.confidence_max c (hperm.mem_iff.mpr hc)
        rw [heq'] at hle
        rw [heq] at hle'
        exact Nonnegative.le_antisymm (heq' ▸ (hitems c' (hperm.mem_iff.mp hc')).confidence) (heq ▸ (hitems c hc).confidence) hle hle'
      have hdepth : h'.dependencyDepth = h.dependencyDepth := by
        obtain ⟨c, hc, heq⟩ := hmerged.depth_mem
        obtain ⟨c', hc', heq'⟩ := hmerged'.depth_mem
        exact Nat.le_antisymm (heq' ▸ hmerged.depth_max c' (hperm.mem_iff.mp hc')) (heq ▸ hmerged'.depth_max c (hperm.mem_iff.mpr hc))
      have hids : h'.evidenceIds = h.evidenceIds := by
        rw [hmerged'.evidenceIds, hmerged.evidenceIds, take_sortedSet, take_sortedSet]
        exact firsts_congr fun a => (hperm.flatMap_right _).mem_iff
      have hnames : h'.parameterNames = h.parameterNames := by
        rw [hmerged'.parameterNames, hmerged.parameterNames, take_sortedSet, take_sortedSet]
        exact firsts_congr fun a => (hperm.flatMap_right _).mem_iff
      have hreason : h'.reason = h.reason := by rw [hmerged'.reason, hmerged.reason, hkind]
      have haction : h'.nextAction = h.nextAction := by rw [hmerged'.nextAction, hmerged.nextAction, hkind]
      cases h
      cases h'
      simp_all

/-- Candidates of one key, taken one after the other. -/
theorem exists_joined {key : HypothesisKind × String} (hne : items ≠ []) (hitems : ∀ c ∈ items, Plain c)
    (hkeys : ∀ c ∈ items, c.key = key) :
    ∃ h, items.foldl (fun previous c => some (joined previous c)) none = some h ∧ UnionOf items h ∧ h.key = key := by
  induction items using List.reverseRecOn with
  | nil => exact absurd rfl hne
  | append_singleton items c ih =>
    have hc := hitems c (List.mem_append_right _ (List.mem_singleton.mpr rfl))
    have hkey := hkeys c (List.mem_append_right _ (List.mem_singleton.mpr rfl))
    rw [List.foldl_append]
    by_cases hnil : items = []
    · subst hnil
      exact ⟨c, rfl, .inl rfl, hkey⟩
    · have hitems' : ∀ x ∈ items, Plain x := fun x hx => hitems x (List.mem_append_left _ hx)
      obtain ⟨p, hp, hunion, hpkey⟩ := ih hnil hitems' fun x hx => hkeys x (List.mem_append_left _ hx)
      rw [hp]
      exact ⟨merged p c, rfl, hunion.snoc hitems' hc, (key_merged (hpkey.trans hkey.symm)).trans hkey⟩

/-- The candidates of a key. -/
def ofKey (candidates : List Hypothesis) (key : HypothesisKind × String) : List Hypothesis :=
  candidates.filter fun c => decide (c.key = key)

theorem get?_foldl (candidates : List Hypothesis) (found : Dict (HypothesisKind × String) Hypothesis) (key : HypothesisKind × String) :
    (candidates.foldl insertItem found).get? key =
      (ofKey candidates key).foldl (fun previous c => some (joined previous c)) (found.get? key) := by
  induction candidates generalizing found with
  | nil => rfl
  | cons c candidates ih =>
    rw [List.foldl_cons, ih]
    by_cases hkey : c.key = key
    · rw [ofKey, ofKey, List.filter_cons_of_pos (by simpa using hkey), List.foldl_cons, insertItem, hkey, Dict.get?_set_self]
    · rw [ofKey, ofKey, List.filter_cons_of_neg (by simpa using hkey), insertItem, Dict.get?_set_of_ne fun h => hkey h.symm]

theorem get?_deduped {candidates : List Hypothesis} (hplain : ∀ c ∈ candidates, Plain c) {key : HypothesisKind × String}
    (hget : (deduped candidates).get? key = some h) : UnionOf (ofKey candidates key) h ∧ h.key = key := by
  rw [deduped, get?_foldl, Dict.get?_empty] at hget
  have hne : ofKey candidates key ≠ [] := by
    intro hnil
    rw [hnil] at hget
    cases hget
  obtain ⟨h', hfold, hunion, hkey⟩ := exists_joined hne (fun c hc => hplain c (List.mem_of_mem_filter hc)) fun c hc => by
    simpa using List.of_mem_filter hc
  rw [hfold] at hget
  cases hget
  exact ⟨hunion, hkey⟩

/-- Candidates in another order leave the same under each key. -/
theorem get?_deduped_perm {candidates candidates' : List Hypothesis} (hplain : ∀ c ∈ candidates, Plain c)
    (hperm : candidates'.Perm candidates) (key : HypothesisKind × String) :
    (deduped candidates').get? key = (deduped candidates).get? key := by
  have hof : (ofKey candidates' key).Perm (ofKey candidates key) := hperm.filter _
  have hplain' : ∀ c ∈ candidates', Plain c := fun c hc => hplain c (hperm.mem_iff.mp hc)
  by_cases hnil : ofKey candidates key = []
  · rw [hnil] at hof
    rw [deduped, deduped, get?_foldl, get?_foldl, hnil, List.perm_nil.mp hof]
  · have hnil' : ofKey candidates' key ≠ [] := fun h => hnil (List.nil_perm.mp (h ▸ hof))
    obtain ⟨h, hfold, hunion, hkey⟩ := exists_joined hnil (fun c hc => hplain c (List.mem_of_mem_filter hc)) fun c hc => by
      simpa using List.of_mem_filter hc
    obtain ⟨h', hfold', hunion', hkey'⟩ := exists_joined hnil' (fun c hc => hplain' c (List.mem_of_mem_filter hc)) fun c hc => by
      simpa using List.of_mem_filter hc
    rw [deduped, deduped, get?_foldl, get?_foldl, Dict.get?_empty, hfold, hfold',
      UnionOf.unique (fun c hc => hplain c (List.mem_of_mem_filter hc)) hof hunion hunion' (hkey'.trans hkey.symm)]

/-! ## The lineage of an observation -/

/-- The observation itself, its parents, their parents and so on. -/
inductive InLineage (graph : ObservationGraph) : String → Observation → Prop
  | self {id : String} {o : Observation} (hget : graph.items.get? id = some o) : InLineage graph id o
  | parent {id p : String} {o x : Observation} (hget : graph.items.get? id = some o) (hp : p ∈ o.parentIds)
      (h : InLineage graph p x) : InLineage graph id x

/-- The host of what is found under an identifier is among some hosts, if there is one. -/
def Listed (u : Unicode) (hosts : List (List Char)) (o : Observation) : Prop :=
  ∃ host, ReviewEvidence.originHost u o = some host ∧ (host ≠ [] → host ∈ hosts)

theorem Listed.mono {hosts' : List (List Char)} (h : Listed u hosts o) (hsub : hosts ⊆ hosts') :
    Listed u hosts' o := by
  obtain ⟨host, hhost, hmem⟩ := h
  exact ⟨host, hhost, fun hne => hsub (hmem hne)⟩

/-- A walk lists the host of what it sees, and comes to the parents of what it has seen. -/
theorem lineageWalk_spec {result : List (List Char)}
    (h : lineageWalk u graph stack seen hosts = .ok result)
    (hseen : ∀ id ∈ seen, ∀ o, graph.items.get? id = some o → Listed u hosts o ∧ ∀ p ∈ o.parentIds, p ∈ seen ∨ p ∈ stack) :
    ∃ visited : List String, (∀ id, id ∈ seen ∨ id ∈ stack → id ∈ visited) ∧
      ∀ id ∈ visited, ∀ o, graph.items.get? id = some o → Listed u result o ∧ ∀ p ∈ o.parentIds, p ∈ visited := by
  induction stack, seen, hosts using ReviewEvidence.lineageWalk.induct u graph with
  | case1 seen hosts =>
    rw [lineageWalk] at h
    cases h
    refine ⟨seen, fun id hid => hid.elim (fun hid => hid) fun hid => absurd hid List.not_mem_nil, fun id hid o hget => ?_⟩
    obtain ⟨hlisted, hparents⟩ := hseen id hid o hget
    exact ⟨hlisted, fun p hp => (hparents p hp).elim (fun hp => hp) fun hp => absurd hp List.not_mem_nil⟩
  | case2 id stack seen hosts hmem ih =>
    rw [lineageWalk, dif_pos hmem] at h
    obtain ⟨visited, hvisited, hclosed⟩ := ih h fun i hi o hget => by
      obtain ⟨hlisted, hparents⟩ := hseen i hi o hget
      refine ⟨hlisted, fun p hp => (hparents p hp).elim .inl fun hp => ?_⟩
      exact (List.mem_cons.mp hp).elim (fun heq => .inl (heq ▸ hmem)) .inr
    refine ⟨visited, fun i hi => hvisited i (hi.elim .inl fun hi => ?_), hclosed⟩
    exact (List.mem_cons.mp hi).elim (fun heq => .inl (heq ▸ hmem)) .inr
  | case3 id stack seen hosts hnot hget ih =>
    rw [lineageWalk_missing hnot hget] at h
    obtain ⟨visited, hvisited, hclosed⟩ := ih h fun i hi o hgeti => by
      rcases List.mem_cons.mp hi with rfl | hi
      · rw [hget] at hgeti
        cases hgeti
      · obtain ⟨hlisted, hparents⟩ := hseen i hi o hgeti
        refine ⟨hlisted, fun p hp => (hparents p hp).elim (fun hp => .inl (List.mem_cons_of_mem _ hp)) fun hp => ?_⟩
        exact (List.mem_cons.mp hp).elim (fun heq => .inl (heq ▸ List.mem_cons_self)) .inr
    refine ⟨visited, fun i hi => hvisited i (hi.elim (fun hi => .inl (List.mem_cons_of_mem _ hi)) fun hi => ?_), hclosed⟩
    exact (List.mem_cons.mp hi).elim (fun heq => .inl (heq ▸ List.mem_cons_self)) .inr
  | case4 id stack seen hosts hnot o hget hhost =>
    rw [lineageWalk_invalid hnot hget hhost] at h
    cases h
  | case5 id stack seen hosts hnot o hget host hhost ih =>
    rw [lineageWalk_found hnot hget hhost] at h
    have hsub : hosts ⊆ if host = [] then hosts else host :: hosts := by
      split
      · exact List.Subset.refl _
      · exact List.subset_cons_self ..
    obtain ⟨visited, hvisited, hclosed⟩ := ih h fun i hi x hgeti => by
      rcases List.mem_cons.mp hi with rfl | hi
      · rw [hget] at hgeti
        cases hgeti
        refine ⟨⟨host, hhost, fun hne => ?_⟩, fun p hp => .inr (List.mem_append_left _ (List.mem_reverse.mpr hp))⟩
        show host ∈ if host = [] then hosts else host :: hosts
        rw [if_neg hne]
        exact List.mem_cons_self
      · obtain ⟨hlisted, hparents⟩ := hseen i hi x hgeti
        refine ⟨hlisted.mono hsub, fun p hp => (hparents p hp).elim (fun hp => .inl (List.mem_cons_of_mem _ hp)) fun hp => ?_⟩
        exact (List.mem_cons.mp hp).elim (fun heq => .inl (heq ▸ List.mem_cons_self)) fun hp => .inr (List.mem_append_right _ hp)
    refine ⟨visited, fun i hi => hvisited i (hi.elim (fun hi => .inl (List.mem_cons_of_mem _ hi)) fun hi => ?_), hclosed⟩
    exact (List.mem_cons.mp hi).elim (fun heq => .inl (heq ▸ List.mem_cons_self)) fun hi => .inr (List.mem_append_right _ hi)

/-- The hosts of a lineage are those of all observations in it. -/
theorem listed_of_inLineage
    (h : lineageHosts u graph id = .ok hosts) (hlineage : InLineage graph id o) : Listed u hosts o := by
  obtain ⟨visited, hvisited, hclosed⟩ := lineageWalk_spec h fun _ hid => absurd hid List.not_mem_nil
  have hid := hvisited id (.inr List.mem_cons_self)
  clear hvisited h
  induction hlineage with
  | self hget => exact (hclosed _ hid _ hget).1
  | parent hget hp _ ih => exact ih ((hclosed _ hid _ hget).2 _ hp)

/-- Every host in the lineage is in scope. -/
def LineageInScope (u : Unicode) (graph : ObservationGraph) (check : String → Bool) (id : String) : Prop :=
  ∀ o, InLineage graph id o → ∃ host, ReviewEvidence.originHost u o = some host ∧ (host ≠ [] → check (String.ofList host) = true)

theorem lineageInScope_of_scopeAllows {check : String → Bool}
    (h : scopeAllows u graph id (some check) = .ok true) : LineageInScope u graph check id := by
  rw [scopeAllows] at h
  cases hhosts : lineageHosts u graph id with
  | error e =>
    rw [hhosts] at h
    cases h
  | ok hosts =>
    rw [hhosts] at h
    have hall := (Bool.and_eq_true_iff.mp (Except.ok.inj h)).2
    intro o ho
    obtain ⟨host, hhost, hmem⟩ := listed_of_inLineage hhosts ho
    exact ⟨host, hhost, fun hne => List.all_eq_true.mp hall host (hmem hne)⟩

/-! ## The hypotheses -/

theorem word_injective {a b : HypothesisKind} (h : a.word = b.word) : a = b := by
  cases a <;> cases b <;> first | rfl | exact absurd h (by decide)

theorem key_of_rankKey {a b : Hypothesis} (h : rankKey a = rankKey b) : a.key = b.key := by
  have hlast := (Prod.ext_iff.mp (congrArg (fun k => ofLex (ofLex k).2) h))
  exact Prod.ext (word_injective hlast.1) hlast.2

variable {candidates candidates' : List Hypothesis}

theorem key_of_mem_values (hplain : ∀ c ∈ candidates, Plain c) (hmem : h ∈ (deduped candidates).values) :
    (deduped candidates).get? h.key = some h := by
  obtain ⟨⟨key, h'⟩, he, rfl⟩ := List.mem_map.mp hmem
  have hget := Dict.mem_entries.mp he
  rw [(get?_deduped hplain hget).2]
  exact hget

/-- Candidates in another order are ranked alike. -/
theorem ranked_perm (hplain : ∀ c ∈ candidates, Plain c) (hperm : candidates'.Perm candidates) :
    SortByKey.sortByKey rankKey (deduped candidates').values = SortByKey.sortByKey rankKey (deduped candidates).values := by
  refine (SortByKey.sortByKey_eq_of_perm (fun a ha b hb hkey => ?_) ?_).symm
  · have hget := key_of_mem_values hplain ha
    rw [key_of_rankKey hkey, key_of_mem_values hplain hb] at hget
    exact (Option.some.inj hget).symm
  · exact (GroupBy.perm_of_get? fun key => (get?_deduped_perm hplain hperm key).symm).map _

theorem nodup_keys_deduped (hplain : ∀ c ∈ candidates, Plain c) : ((deduped candidates).values.map Hypothesis.key).Nodup := by
  have hkeys : (deduped candidates).values.map Hypothesis.key = (deduped candidates).entries.map (·.1) := by
    rw [Dict.values, List.map_map]
    refine List.map_congr_left fun e he => ?_
    exact (get?_deduped hplain (Dict.mem_entries.mp he)).2
  rw [hkeys]
  exact (deduped candidates).nodup

theorem buildHypotheses_eq_ok {limit : Int} {hypotheses : List Hypothesis}
    (h : buildHypotheses py graph limit scopeChecker = .ok hypotheses) :
    ¬ (limit < 1 ∨ 100 < limit) ∧ ∃ candidates, collected py graph scopeChecker = .ok candidates ∧
      hypotheses = (SortByKey.sortByKey rankKey (deduped candidates).values).take limit.toNat := by
  unfold buildHypotheses at h
  split at h
  · cases h
  rename_i hlimit
  cases hcandidates : collected py graph scopeChecker with
  | error e =>
    rw [hcandidates] at h
    cases h
  | ok candidates =>
    rw [hcandidates] at h
    cases h
    exact ⟨hlimit, candidates, rfl, rfl⟩

/-- The supporting identifiers of a union are those of its candidates. -/
theorem UnionOf.exists_of_mem (hunion : UnionOf items h)
    (hid : id ∈ h.evidenceIds) : ∃ c ∈ items, id ∈ c.evidenceIds := by
  rcases hunion with rfl | ⟨-, hmerged⟩
  · exact ⟨h, List.mem_singleton.mpr rfl, hid⟩
  · rw [hmerged.evidenceIds, take_sortedSet] at hid
    exact List.mem_flatMap.mp (mem_of_mem_firsts hid)

/-- Texts are `str` of themselves; no other value is read. -/
def samplePython : Python where
  unicode := ExecutionContract.sampleUnicode
  str
    | .str text => text
    | _ => ""
  float _ := .error (.typeError "float() argument must be a string or a real number")

/-- A form with sixty-five names of inputs. -/
def wideForm : Observation :=
  ⟨"form-1", "form", "https://example.com/login", "browser", [],
    [("input_names", .arr ((List.range 65).map fun n => .str (String.singleton (Char.ofNat (256 + n)))))]⟩

def wideGraph : ObservationGraph := ObservationGraph.empty.put wideForm

def exampleScope (host : String) : Bool := decide (host = "example.com")

example : wideGraph.values.length = 1 := by decide +kernel

theorem get?_wideForm : wideGraph.items.get? "form-1" = some wideForm := Dict.get?_set_self

theorem scopeAllows_wideForm : scopeAllows samplePython.unicode wideGraph "form-1" (some exampleScope) = .ok true := by
  have hhost : ReviewEvidence.originHost samplePython.unicode wideForm = some "example.com".toList := by decide +kernel
  rw [scopeAllows, lineageHosts, lineageWalk_found List.not_mem_nil get?_wideForm hhost]
  show (lineageWalk samplePython.unicode wideGraph [] ["form-1"] (if "example.com".toList = [] then [] else ["example.com".toList]) >>=
    fun hosts => pure (decide (hosts ≠ []) && hosts.all fun host => exampleScope (String.ofList host))) = _
  rw [lineageWalk]
  rfl

theorem formCandidates_wideForm : (formCandidates samplePython (fun _ _ => false) wideForm).toOption.map
    (fun candidates => candidates.map fun c => c.parameterNames.length) = some [65] := by
  decide +kernel

/-- The form alone makes a hypothesis with all of its names. -/
theorem buildHypotheses_wideGraph :
    ∃ item, buildHypotheses samplePython wideGraph 20 (some exampleScope) = .ok [item] ∧ item.parameterNames.length = 65 := by
  have hvisit : visit samplePython wideGraph (some exampleScope) [] (.form, wideForm) =
      formCandidates samplePython (fun _ _ => false) wideForm := by
    unfold visit candidatesOf
    beta_reduce
    rw [show ((ObservationKind.form, wideForm).2.id) = "form-1" from rfl, scopeAllows_wideForm]
    rfl
  have hform := formCandidates_wideForm
  cases hcandidates : formCandidates samplePython (fun _ _ => false) wideForm with
  | error e =>
    rw [hcandidates] at hform
    cases hform
  | ok candidates =>
    rw [hcandidates] at hform
    have hlengths : candidates.map (fun c => c.parameterNames.length) = [65] := Option.some.inj hform
    obtain ⟨item, hitem, hlength⟩ := List.map_eq_singleton_iff.mp hlengths
    have hout : (passItems wideGraph).mapM (visit samplePython wideGraph (some exampleScope) []) = .ok [[item]] := by
      rw [show passItems wideGraph = [(ObservationKind.form, wideForm)] from rfl, List.mapM_cons, hvisit, hcandidates, hitem]
      rfl
    have hreviewed : completedReviews samplePython.unicode wideGraph (some exampleScope) = .ok [] := by rfl
    have hcollected := collected_of_ok hreviewed hout
    refine ⟨item, ?_, hlength⟩
    unfold buildHypotheses
    rw [if_neg (by decide), hcollected]
    rfl

end HypothesisEngine

end XbowPerso
