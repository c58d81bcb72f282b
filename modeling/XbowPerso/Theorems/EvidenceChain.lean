import Mathlib.Data.List.Dedup
import XbowPerso.EvidenceChain
import XbowPerso.Lib.Reachability

/-!
# The ancestry of a finding is exact

The walk stops only at a parent that is on its path, and what is reached at all is reached without coming back: so it meets every
ancestor, each reference to nothing, and a way back if and only if a cycle can be reached.
-/

namespace XbowPerso

namespace ObservationGraph

open Reachability
open Relation (ReflTransGen TransGen)

variable {graph : ObservationGraph}

/-- A parent link. -/
def Links (graph : ObservationGraph) (a b : String) : Prop := ∃ o, graph.items.get? a = some o ∧ b ∈ o.parentIds

/-- An identifier under which the graph holds nothing. -/
def Absent (graph : ObservationGraph) (id : String) : Prop := graph.items.get? id = none

/-! ## What the walk has met stays met -/

/-- What the loop does with a parent. -/
def visitParent (graph : ObservationGraph) (root : String) (fuel : Nat) (current : String) (path : List String) (found : Ancestry)
    (parent : String) : Ancestry :=
  if parent ∈ path ∨ parent = root then { found.meet parent with cycleDetected := true }
  else visit graph root fuel (found.meet parent) parent (path ++ [current])

variable {root current : String} {fuel : Nat} {found : Ancestry} {path : List String}

theorem visit_some {o : Observation}
    (h : graph.items.get? current = some o) :
    visit graph root (fuel + 1) found current path = o.parentIds.foldl (visitParent graph root fuel current path) found := by
  rw [visit, h]
  rfl

theorem visit_none (h : Absent graph current) :
    visit graph root (fuel + 1) found current path = { found with dangling := found.dangling ++ [current] } := by
  rw [visit, show graph.items.get? current = none from h]

/-- All that was met is still met. -/
structure Ancestry.Within (a b : Ancestry) : Prop where
  ancestors : ∀ id ∈ a.ancestors, id ∈ b.ancestors
  dangling : ∀ id ∈ a.dangling, id ∈ b.dangling
  cycle : a.cycleDetected = true → b.cycleDetected = true

theorem Ancestry.Within.refl (a : Ancestry) : a.Within a := ⟨fun _ h => h, fun _ h => h, id⟩

theorem Ancestry.Within.trans {a b c : Ancestry} (hab : a.Within b) (hbc : b.Within c) : a.Within c :=
  ⟨fun id h => hbc.ancestors id (hab.ancestors id h), fun id h => hbc.dangling id (hab.dangling id h), fun h => hbc.cycle (hab.cycle h)⟩

theorem within_meet (found : Ancestry) (parent : String) : found.Within (found.meet parent) :=
  ⟨fun _ h => List.mem_append_left _ h, fun _ h => h, fun h => h⟩

theorem mem_meet (found : Ancestry) (parent : String) : parent ∈ (found.meet parent).ancestors :=
  List.mem_append_right _ (List.mem_singleton.mpr rfl)

/-- Each step of a loop keeps what was met, so the loop does. -/
theorem within_foldl {f : Ancestry → String → Ancestry} (h : ∀ (found : Ancestry) p, found.Within (f found p)) (l : List String)
    (found : Ancestry) : found.Within (l.foldl f found) := by
  induction l generalizing found with
  | nil => exact .refl found
  | cons p l ih => exact (h found p).trans (ih _)

/-- What a step of the loop meets, the loop meets. -/
theorem within_foldl_of_mem {f : Ancestry → String → Ancestry} (h : ∀ (found : Ancestry) p, found.Within (f found p)) {l : List String}
    {p : String} (hp : p ∈ l) (found : Ancestry) : ∃ before, (f before p).Within (l.foldl f found) := by
  obtain ⟨front, back, rfl⟩ := List.append_of_mem hp
  refine ⟨front.foldl f found, ?_⟩
  rw [List.foldl_append, List.foldl_cons]
  exact within_foldl h back _

theorem within_visit (root : String) (fuel : Nat) (found : Ancestry) (current : String) (path : List String) :
    found.Within (visit graph root fuel found current path) := by
  induction fuel generalizing found current path with
  | zero => exact .refl found
  | succ fuel ih =>
    cases hget : graph.items.get? current with
    | none =>
      rw [visit_none hget]
      exact ⟨fun _ h => h, fun _ h => List.mem_append_left _ h, id⟩
    | some o =>
      rw [visit_some hget]
      refine within_foldl (fun found p => ?_) _ _
      unfold visitParent
      split
      · exact ⟨(within_meet found p).ancestors, fun _ h => h, fun _ => rfl⟩
      · exact (within_meet found p).trans (ih _ _ _)

theorem within_visitParent (root : String) (fuel : Nat) (current : String) (path : List String) (found : Ancestry) (p : String) :
    found.Within (visitParent graph root fuel current path found p) := by
  unfold visitParent
  split
  · exact ⟨(within_meet found p).ancestors, fun _ h => h, fun _ => rfl⟩
  · exact (within_meet found p).trans (within_visit root fuel _ _ _)

/-! ## The walk meets nothing else -/

/-- What was met can be reached by parent links, references to nothing are references to nothing, and a way back is a cycle. -/
structure Ancestry.Sound (graph : ObservationGraph) (root : String) (found : Ancestry) : Prop where
  ancestors : ∀ id ∈ found.ancestors, TransGen graph.Links root id
  dangling : ∀ id ∈ found.dangling, TransGen graph.Links root id ∧ graph.Absent id
  cycle : found.cycleDetected = true → ReachesCycle graph.Links root

theorem Ancestry.Sound.meet {parent : String} (h : found.Sound graph root)
    (hparent : TransGen graph.Links root parent) : (found.meet parent).Sound graph root := by
  refine ⟨fun id hid => ?_, h.dangling, h.cycle⟩
  rcases List.mem_append.mp hid with hid | hid
  · exact h.ancestors id hid
  · rw [List.mem_singleton.mp hid]
    exact hparent

theorem sound_foldl {f : Ancestry → String → Ancestry} {l : List String}
    (h : ∀ p ∈ l, ∀ found : Ancestry, found.Sound graph root → (f found p).Sound graph root)
    (hfound : found.Sound graph root) : (l.foldl f found).Sound graph root := by
  induction l generalizing found with
  | nil => exact hfound
  | cons p l ih =>
    exact ih (fun q hq => h q (List.mem_cons_of_mem p hq)) (h p List.mem_cons_self found hfound)

/-- The path leads to where the walk is, and the walk started at the root. -/
theorem sound_visit
    (hfound : found.Sound graph root) (hcurrent : ReflTransGen graph.Links root current)
    (hpath : ∀ p ∈ path, TransGen graph.Links p current) (habsent : graph.Absent current → TransGen graph.Links root current) :
    (visit graph root fuel found current path).Sound graph root := by
  induction fuel generalizing found current path with
  | zero => exact hfound
  | succ fuel ih =>
    cases hget : graph.items.get? current with
    | none =>
      rw [visit_none hget]
      refine ⟨hfound.ancestors, fun id hid => ?_, hfound.cycle⟩
      rcases List.mem_append.mp hid with hid | hid
      · exact hfound.dangling id hid
      · rw [List.mem_singleton.mp hid]
        exact ⟨habsent hget, hget⟩
    | some o =>
      rw [visit_some hget]
      refine sound_foldl (fun parent hparent found hfound => ?_) hfound
      have hlink : graph.Links current parent := ⟨o, hget, hparent⟩
      have hreach : TransGen graph.Links root parent := TransGen.tail' hcurrent hlink
      unfold visitParent
      by_cases hback : parent ∈ path ∨ parent = root
      · rw [if_pos hback]
        refine ⟨(hfound.meet hreach).ancestors, hfound.dangling, fun _ => ⟨parent, hreach.to_reflTransGen, ?_⟩⟩
        rcases hback with hmem | rfl
        · exact (hpath parent hmem).tail hlink
        · exact hreach
      · rw [if_neg hback]
        refine ih (hfound.meet hreach) hreach.to_reflTransGen (fun p hp => ?_) fun _ => hreach
        rcases List.mem_append.mp hp with hp | hp
        · exact (hpath p hp).tail hlink
        · rw [List.mem_singleton.mp hp]
          exact .single hlink

/-! ## The walk meets all of it -/

/-- Where the walk does not go on: its path, and the root. -/
def Closed (root : String) (path : List String) (id : String) : Prop := id ∈ path ∨ id = root

theorem closed_append (root : String) (path : List String) (current : String) :
    Closed root (path ++ [current]) = also (Closed root path) current := by
  funext id
  unfold Closed also
  simp only [List.mem_append, List.mem_singleton, eq_iff_iff]
  tauto

/-- The walk meets what can be reached without entering its path. -/
structure Meets (graph : ObservationGraph) (closed : String → Prop) (current : String) (found : Ancestry) : Prop where
  ancestors : ∀ x p, ReflTransGen (Avoiding graph.Links closed) current x → graph.Links x p → p ∈ found.ancestors
  dangling : ∀ x, ReflTransGen (Avoiding graph.Links closed) current x → graph.Absent x → x ∈ found.dangling
  cycle : ComesBack graph.Links closed current → found.cycleDetected = true

theorem Meets.within {closed : String → Prop} {a b : Ancestry} (h : Meets graph closed current a)
    (hab : a.Within b) : Meets graph closed current b :=
  ⟨fun x p hx hp => hab.ancestors p (h.ancestors x p hx hp), fun x hx hx' => hab.dangling x (h.dangling x hx hx'),
    fun hback => hab.cycle (h.cycle hback)⟩

theorem not_links_of_absent {a b : String} (h : graph.Absent a) : ¬ graph.Links a b := by
  rintro ⟨o, ho, -⟩
  rw [show graph.items.get? a = none from h] at ho
  cases ho

/-- With enough steps the walk meets what it can reach. -/
theorem meets_visit
    (h : graph.stepsLeft current path < fuel) :
    Meets graph (Closed root path) current (visit graph root fuel found current path) := by
  induction fuel generalizing found current path with
  | zero => exact absurd h (Nat.not_lt_zero _)
  | succ fuel ih =>
    cases hget : graph.items.get? current with
    | none =>
      have hstuck : ∀ p, ¬ graph.Links current p := fun p => not_links_of_absent hget
      have honly : ∀ x, ReflTransGen (Avoiding graph.Links (Closed root path)) current x → x = current := by
        intro x hx
        rcases last_exit hx with rfl | ⟨c, hc, -, -⟩
        · rfl
        · exact absurd hc (hstuck c)
      rw [visit_none hget]
      refine ⟨fun x p hx hp => ?_, fun x hx _ => ?_, fun hback => ?_⟩
      · rw [honly x hx] at hp
        exact absurd hp (hstuck p)
      · rw [honly x hx]
        exact List.mem_append_right _ (List.mem_singleton.mpr rfl)
      · rcases hback.first with ⟨p, hp, -⟩ | ⟨c, hc, -, -⟩
        · exact absurd hp (hstuck p)
        · exact absurd hc (hstuck c)
    | some o =>
      rw [visit_some hget]
      have hisSome : (graph.items.get? current).isNone = false := by rw [hget]; rfl
      have hmem : ∀ p, graph.Links current p → p ∈ o.parentIds := by
        rintro p ⟨o', ho', hp⟩
        rw [hget] at ho'
        rwa [Option.some.inj ho']
      -- a parent is met, and so is all that is reached from one that is not closed
      have hparent : ∀ p, graph.Links current p →
          p ∈ (o.parentIds.foldl (visitParent graph root fuel current path) found).ancestors := by
        intro p hp
        obtain ⟨before, hwithin⟩ := within_foldl_of_mem (within_visitParent root fuel current path) (hmem p hp) found
        refine hwithin.ancestors p ?_
        unfold visitParent
        split
        · exact mem_meet before p
        · exact (within_visit root fuel _ _ _).ancestors p (mem_meet before p)
      have hbelow : ∀ c, graph.Links current c → ¬ Closed root path c → Meets graph (also (Closed root path) current) c
          (o.parentIds.foldl (visitParent graph root fuel current path) found) := by
        intro c hc hopen
        obtain ⟨before, hwithin⟩ := within_foldl_of_mem (within_visitParent root fuel current path) (hmem c hc) found
        refine Meets.within ?_ hwithin
        have hlt := stepsLeft_lt hisSome fun hpath => hopen (.inl hpath)
        rw [visitParent, if_neg (show ¬ (c ∈ path ∨ c = root) from hopen), ← closed_append]
        exact ih (by omega)
      refine ⟨fun x p hx hp => ?_, fun x hx habsent => ?_, fun hback => ?_⟩
      · rcases last_exit hx with rfl | ⟨c, hc, hopen, hreach⟩
        · exact hparent p hp
        · exact (hbelow c hc hopen).ancestors x p hreach hp
      · rcases last_exit hx with rfl | ⟨c, hc, hopen, hreach⟩
        · rw [show graph.items.get? x = none from habsent] at hget
          cases hget
        · exact (hbelow c hc hopen).dangling x hreach habsent
      · rcases hback.first with ⟨p, hp, hclosed⟩ | ⟨c, hc, hopen, hbelow'⟩
        · obtain ⟨before, hwithin⟩ := within_foldl_of_mem (within_visitParent root fuel current path) (hmem p hp) found
          refine hwithin.cycle ?_
          rw [visitParent, if_pos (show p ∈ path ∨ p = root from hclosed)]
        · exact (hbelow c hc hopen).cycle hbelow'

/-! ## The ancestry -/

theorem mem_sortedIds {ids : List String} {id : String} : id ∈ sortedIds ids ↔ id ∈ ids :=
  ((List.perm_insertionSort _ _).mem_iff).trans List.mem_dedup

/-- What the walk has met in the end. -/
def met (graph : ObservationGraph) (root : String) : Ancestry := visit graph root graph.pathBound ⟨[], [], false⟩ root []

theorem ancestryIntegrity_some {o : Observation} (h : graph.items.get? root = some o) :
    graph.ancestryIntegrity root = (sortedIds (graph.met root).ancestors, sortedIds (graph.met root).dangling,
      (graph.met root).cycleDetected) := by
  rw [ancestryIntegrity, h]
  rfl

theorem sound_met {o : Observation} (h : graph.items.get? root = some o) : (graph.met root).Sound graph root := by
  refine sound_visit ⟨?_, ?_, ?_⟩ .refl ?_ fun habsent => ?_
  · exact fun _ hid => absurd hid List.not_mem_nil
  · exact fun _ hid => absurd hid List.not_mem_nil
  · exact fun hcycle => absurd hcycle Bool.false_ne_true
  · exact fun _ hp => absurd hp List.not_mem_nil
  · rw [show graph.items.get? root = none from habsent] at h
    cases h

theorem meets_met (graph : ObservationGraph) (root : String) : Meets graph (fun id => id = root) root (graph.met root) := by
  have hclosed : Closed root [] = fun id => id = root := by
    funext id
    simp [Closed]
  rw [← hclosed]
  exact meets_visit (stepsLeft_lt_pathBound root)

theorem reached_from {id : String} (h : TransGen graph.Links root id) :
    ∃ x, ReflTransGen (Avoiding graph.Links fun y => y = root) root x ∧ graph.Links x id := by
  obtain ⟨x, hx, hlink⟩ := TransGen.tail'_iff.mp h
  exact ⟨x, reach_without_return hx, hlink⟩

theorem not_transGen_of_absent {root id : String} (h : graph.items.get? root = none) : ¬ TransGen graph.Links root id := by
  intro hpath
  obtain ⟨x, hlink, -⟩ := TransGen.head'_iff.mp hpath
  exact not_links_of_absent h hlink

theorem mem_ancestors_iff (graph : ObservationGraph) (root id : String) :
    id ∈ (graph.ancestryIntegrity root).1 ↔ TransGen graph.Links root id := by
  cases hget : graph.items.get? root with
  | none =>
    rw [ancestryIntegrity, hget]
    exact ⟨fun h => absurd h List.not_mem_nil, fun h => absurd h (not_transGen_of_absent hget)⟩
  | some o =>
    rw [ancestryIntegrity_some hget, mem_sortedIds]
    refine ⟨(sound_met hget).ancestors id, fun h => ?_⟩
    obtain ⟨x, hx, hlink⟩ := reached_from h
    exact (meets_met graph root).ancestors x id hx hlink

theorem mem_dangling_iff (graph : ObservationGraph) (root id : String) :
    id ∈ (graph.ancestryIntegrity root).2.1 ↔ TransGen graph.Links root id ∧ graph.Absent id := by
  cases hget : graph.items.get? root with
  | none =>
    rw [ancestryIntegrity, hget]
    exact ⟨fun h => absurd h List.not_mem_nil, fun h => absurd h.1 (not_transGen_of_absent hget)⟩
  | some o =>
    rw [ancestryIntegrity_some hget, mem_sortedIds]
    refine ⟨(sound_met hget).dangling id, fun h => ?_⟩
    have hne : id ≠ root := by
      rintro rfl
      rw [show graph.items.get? id = none from h.2] at hget
      cases hget
    obtain ⟨x, hx, hlink⟩ := reached_from h.1
    exact (meets_met graph root).dangling id (hx.tail ⟨hlink, hne⟩) h.2

theorem cycleDetected_iff (graph : ObservationGraph) (root : String) :
    (graph.ancestryIntegrity root).2.2 = true ↔ ReachesCycle graph.Links root := by
  cases hget : graph.items.get? root with
  | none =>
    rw [ancestryIntegrity, hget]
    refine ⟨fun h => absurd h Bool.false_ne_true, fun ⟨c, hc, hcycle⟩ => ?_⟩
    exact absurd (TransGen.trans_right hc hcycle) (not_transGen_of_absent hget)
  | some o =>
    rw [ancestryIntegrity_some hget]
    exact ⟨(sound_met hget).cycle, fun h => (meets_met graph root).cycle (comesBack_of_reachesCycle h)⟩

/-! ## Complete chains -/

/-- A chain is complete when it lacks nothing. -/
theorem complete_iff (chain : EvidenceChain) :
    chain.complete = true ↔ chain.ancestorIds ≠ [] ∧ chain.danglingParentIds = [] ∧ chain.cycleDetected = false ∧
      chain.validationIds ≠ [] ∧ chain.independentValidationObserved = true ∧ chain.evidenceIds ≠ [] ∧ 2 ≤ chain.sourceCount := by
  unfold EvidenceChain.complete EvidenceChain.issues
  simp only [List.isEmpty_iff, List.append_eq_nil_iff, ite_eq_right_iff, ite_eq_left_iff, List.cons_ne_nil, imp_false, not_not,
    Bool.not_eq_true, Bool.not_eq_false, not_lt, and_assoc, ne_eq]

/-- Some validation of another source than the finding's observed it. -/
def ObservedIndependently (graph : ObservationGraph) (finding : Observation) : Prop :=
  ∃ validation ∈ graph.byKind .validation,
    finding.id ∈ validation.parentIds ∧ validation.value = "observed" ∧ validation.source ≠ finding.source

theorem observedIndependently_iff {finding : Observation} (h : finding ∈ graph.byKind .finding) :
    finding.id ∈ graph.analyzeValidationState.observedIndependentFindingIds ↔ graph.ObservedIndependently finding := by
  unfold analyzeValidationState validated ObservedIndependently
  rw [List.mem_flatMap]
  refine exists_congr fun validation => and_congr_right fun _ => ?_
  rw [List.mem_filter, observesIndependently, findingById?_of_mem h]
  simp only [Bool.and_eq_true, decide_eq_true_eq]

/-- Evidence for a finding, or for a validation of it. -/
def HasEvidence (graph : ObservationGraph) (finding : Observation) : Prop :=
  ∃ evidence ∈ graph.byKind .evidence, finding.id ∈ evidence.parentIds ∨
    ∃ validation ∈ graph.byKind .validation, finding.id ∈ validation.parentIds ∧ validation.id ∈ evidence.parentIds

theorem hasEvidence_of_ids {finding : Observation} (h : (graph.evidenceChain finding).evidenceIds ≠ []) :
    graph.HasEvidence finding := by
  obtain ⟨id, hid⟩ := List.exists_mem_of_ne_nil _ h
  obtain ⟨evidence, hevidence, -⟩ := List.mem_map.mp (mem_sortedIds.mp hid)
  obtain ⟨hmem, htest⟩ := List.mem_filter.mp hevidence
  refine ⟨evidence, hmem, ?_⟩
  rcases Bool.or_eq_true_iff.mp htest with hdirect | hvalidation
  · exact .inl (of_decide_eq_true hdirect)
  · right
    obtain ⟨p, hp, hp'⟩ := List.any_eq_true.mp hvalidation
    obtain ⟨validation, hvalidation, rfl⟩ := List.mem_map.mp (mem_sortedIds.mp (of_decide_eq_true hp'))
    obtain ⟨hkind, hparent⟩ := List.mem_filter.mp hvalidation
    exact ⟨validation, hkind, of_decide_eq_true hparent, hp⟩

end ObservationGraph

end XbowPerso
