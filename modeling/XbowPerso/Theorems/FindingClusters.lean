import Mathlib.Data.List.Dedup
import XbowPerso.FindingClusters
import XbowPerso.Lib.Reachability
import XbowPerso.Theorems.ApprovalGates

namespace XbowPerso

namespace FindingClusters

open AuditSeal ReportApproval ReportReadiness
open Relation (ReflTransGen)

/-! ## The score -/

variable {env : ReviewEnv}

theorem shared_length_comm {left right : List String} (hleft : left.Nodup) (hright : right.Nodup) :
    (shared left right).length = (shared right left).length := by
  refine List.Perm.length_eq ((List.perm_ext_iff_of_nodup (hleft.filter _) (hright.filter _)).mpr fun token => ?_)
  simp only [List.mem_filter, decide_eq_true_eq]
  exact And.comm

theorem jaccard_comm {left right : List String} (hleft : left.Nodup) (hright : right.Nodup) :
    jaccard left right = jaccard right left := by
  unfold jaccard
  simp only [shared_length_comm hleft hright, Nat.add_comm left.length]

theorem sameText_comm (left right : Option String) : sameText left right = sameText right left := by
  simp only [sameText, eq_comm, Bool.and_comm]

theorem nodup_titleTokens (title : Option String) : (titleTokens env title).Nodup := by
  cases title with
  | none => exact List.nodup_nil
  | some value => exact List.nodup_dedup _

variable (env) in
/-- The asset and the endpoint of a finding can be read. -/
def Readable (finding : AuditEntry) : Prop := (∃ asset, assetOf env finding = .ok asset) ∧ ∃ endpoint, endpointOf env finding = .ok endpoint

variable {left right : AuditEntry} {s : FindingSimilarity}

/-- What the score of a pair depends on. -/
theorem score_ok (h : scoreFindingSimilarity env left right = .ok s) :
    ∃ leftAsset rightAsset leftEndpoint rightEndpoint, assetOf env left = .ok leftAsset ∧ assetOf env right = .ok rightAsset ∧
      endpointOf env left = .ok leftEndpoint ∧ endpointOf env right = .ok rightEndpoint ∧ s.leftId = findingId left ∧
      s.rightId = findingId right ∧ s.score = scoreOf (decide (leftAsset = rightAsset)) (sameText leftEndpoint rightEndpoint)
        (sameText (cweOf env left) (cweOf env right))
        (jaccard (titleTokens env (text? (left.get "title"))) (titleTokens env (text? (right.get "title")))) := by
  unfold scoreFindingSimilarity at h
  cases hla : assetOf env left with
  | error e => rw [hla] at h; cases h
  | ok leftAsset =>
    cases hra : assetOf env right with
    | error e => rw [hla, hra] at h; cases h
    | ok rightAsset =>
      cases hle : endpointOf env left with
      | error e => rw [hla, hra, hle] at h; cases h
      | ok leftEndpoint =>
        cases hre : endpointOf env right with
        | error e => rw [hla, hra, hle, hre] at h; cases h
        | ok rightEndpoint =>
          rw [hla, hra, hle, hre] at h
          cases h
          exact ⟨_, _, _, _, rfl, rfl, rfl, rfl, rfl, rfl, rfl⟩

theorem exists_score (hleft : Readable env left) (hright : Readable env right) :
    ∃ s, scoreFindingSimilarity env left right = .ok s := by
  obtain ⟨⟨leftAsset, hla⟩, leftEndpoint, hle⟩ := hleft
  obtain ⟨⟨rightAsset, hra⟩, rightEndpoint, hre⟩ := hright
  unfold scoreFindingSimilarity
  rw [hla, hra, hle, hre]
  exact ⟨_, rfl⟩

theorem readable_of_score (h : scoreFindingSimilarity env left right = .ok s) : Readable env left ∧ Readable env right := by
  obtain ⟨la, ra, le, re, hla, hra, hle, hre, -⟩ := score_ok h
  exact ⟨⟨⟨la, hla⟩, le, hle⟩, ⟨ra, hra⟩, re, hre⟩

/-- The score of a pair does not depend on which of the two is on the left. -/
theorem score_symm (h : scoreFindingSimilarity env left right = .ok s) :
    ∃ s', scoreFindingSimilarity env right left = .ok s' ∧ s'.score = s.score := by
  obtain ⟨hleft, hright⟩ := readable_of_score h
  obtain ⟨s', h'⟩ := exists_score hright hleft
  refine ⟨s', h', ?_⟩
  obtain ⟨la, ra, le, re, hla, hra, hle, hre, -, -, hscore⟩ := score_ok h
  obtain ⟨ra', la', re', le', hra', hla', hre', hle', -, -, hscore'⟩ := score_ok h'
  cases hla.symm.trans hla'
  cases hra.symm.trans hra'
  cases hle.symm.trans hle'
  cases hre.symm.trans hre'
  rw [hscore, hscore', sameText_comm re, sameText_comm (cweOf env right), jaccard_comm (nodup_titleTokens _) (nodup_titleTokens _)]
  simp only [eq_comm]

/-! ## The pairs -/

theorem ordered_perm (findings : List AuditEntry) : (ordered findings).Perm findings := List.perm_insertionSort _ findings

/-- Findings with distinct identifiers are put into one order. -/
theorem ordered_eq_of_perm {findings other : List AuditEntry} (hids : (findings.map findingId).Nodup) (h : other.Perm findings) :
    ordered other = ordered findings := by
  have hperm : (ordered other).Perm (ordered findings) := ((ordered_perm other).trans h).trans (ordered_perm findings).symm
  have hsorted : ∀ l, (ordered l).Pairwise fun a b => findingId a ≤ findingId b := fun l => by
    have : Std.Total fun a b : AuditEntry => findingId a ≤ findingId b := ⟨fun a b => le_total _ _⟩
    have : IsTrans AuditEntry fun a b => findingId a ≤ findingId b := ⟨fun _ _ _ => le_trans⟩
    exact List.pairwise_insertionSort _ l
  refine hperm.eq_of_pairwise (fun a b ha hb hle hge => ?_) (hsorted other) (hsorted findings)
  have ha' : a ∈ findings := h.mem_iff.mp ((ordered_perm other).mem_iff.mp ha)
  have hb' : b ∈ findings := (ordered_perm findings).mem_iff.mp hb
  exact List.inj_on_of_nodup_map hids ha' hb' (le_antisymm hle hge)

theorem mem_of_mem_pairsOf {findings : List AuditEntry} (h : (left, right) ∈ pairsOf findings) : left ∈ findings ∧ right ∈ findings := by
  induction findings with
  | nil => cases h
  | cons first rest ih =>
    rcases List.mem_append.mp h with h | h
    · obtain ⟨other, hother, heq⟩ := List.mem_map.mp h
      cases heq
      exact ⟨List.mem_cons_self, List.mem_cons_of_mem _ hother⟩
    · exact ⟨List.mem_cons_of_mem _ (ih h).1, List.mem_cons_of_mem _ (ih h).2⟩

/-- The findings of a pair have two identifiers. -/
theorem ne_of_mem_pairsOf {findings : List AuditEntry} (hids : (findings.map findingId).Nodup) (h : (left, right) ∈ pairsOf findings) :
    findingId left ≠ findingId right := by
  induction findings with
  | nil => cases h
  | cons first rest ih =>
    rw [List.map_cons, List.nodup_cons] at hids
    rcases List.mem_append.mp h with h | h
    · obtain ⟨other, hother, heq⟩ := List.mem_map.mp h
      cases heq
      exact fun heq => hids.1 (heq ▸ List.mem_map_of_mem hother)
    · exact ih hids.2 h

/-- Two findings are a pair in one of the two orders. -/
theorem mem_pairsOf {findings : List AuditEntry} (hleft : left ∈ findings) (hright : right ∈ findings)
    (hne : findingId left ≠ findingId right) : (left, right) ∈ pairsOf findings ∨ (right, left) ∈ pairsOf findings := by
  induction findings with
  | nil => cases hleft
  | cons first rest ih =>
    have hfirst : ∀ {other}, other ∈ rest → (first, other) ∈ pairsOf (first :: rest) := fun hother =>
      List.mem_append_left _ (List.mem_map_of_mem (f := fun other => (first, other)) hother)
    rcases List.mem_cons.mp hleft with rfl | hleft'
    · rcases List.mem_cons.mp hright with rfl | hright'
      · exact absurd rfl hne
      · exact .inl (hfirst hright')
    · rcases List.mem_cons.mp hright with rfl | hright'
      · exact .inr (hfirst hleft')
      · exact (ih hleft' hright').imp (List.mem_append_right _) (List.mem_append_right _)

variable {pairs : List (AuditEntry × AuditEntry)} {scored : List FindingSimilarity}

theorem similarities_cons_ok
    (h : similarities env ((left, right) :: pairs) = .ok scored) :
    ∃ s rest, scoreFindingSimilarity env left right = .ok s ∧ similarities env pairs = .ok rest ∧ scored = s :: rest := by
  rw [similarities] at h
  cases hs : scoreFindingSimilarity env left right with
  | error e => rw [hs] at h; cases h
  | ok s =>
    cases hrest : similarities env pairs with
    | error e => rw [hs, hrest] at h; cases h
    | ok rest =>
      rw [hs, hrest] at h
      cases h
      exact ⟨s, rest, rfl, rfl, rfl⟩

/-- What is scored are the pairs. -/
theorem mem_similarities
    (h : similarities env pairs = .ok scored) :
    s ∈ scored ↔ ∃ left right, (left, right) ∈ pairs ∧ scoreFindingSimilarity env left right = .ok s := by
  induction pairs generalizing scored with
  | nil =>
    cases h
    simp
  | cons pair pairs ih =>
    obtain ⟨t, rest, ht, hrest, rfl⟩ := similarities_cons_ok h
    rw [List.mem_cons, ih hrest]
    constructor
    · rintro (rfl | ⟨left, right, hmem, hscore⟩)
      · exact ⟨_, _, List.mem_cons_self, ht⟩
      · exact ⟨left, right, List.mem_cons_of_mem _ hmem, hscore⟩
    · rintro ⟨left, right, hmem, hscore⟩
      rcases List.mem_cons.mp hmem with rfl | hmem
      · exact .inl (Except.ok.inj (hscore.symm.trans ht))
      · exact .inr ⟨left, right, hmem, hscore⟩

/-- All pairs are scored exactly when each can be. -/
theorem similarities_isOk :
    (∃ scored, similarities env pairs = .ok scored) ↔
      ∀ left right, (left, right) ∈ pairs → ∃ s, scoreFindingSimilarity env left right = .ok s := by
  induction pairs with
  | nil => simp [similarities]
  | cons pair pairs ih =>
    constructor
    · rintro ⟨scored, h⟩ left right hmem
      obtain ⟨s, rest, hs, hrest, -⟩ := similarities_cons_ok h
      rcases List.mem_cons.mp hmem with rfl | hmem
      · exact ⟨s, hs⟩
      · exact ih.mp ⟨rest, hrest⟩ left right hmem
    · intro h
      obtain ⟨s, hs⟩ := h pair.1 pair.2 List.mem_cons_self
      obtain ⟨rest, hrest⟩ := ih.mpr fun left right hmem => h left right (List.mem_cons_of_mem _ hmem)
      refine ⟨s :: rest, ?_⟩
      rw [similarities, hs, hrest]
      rfl

/-! ## The joined findings -/

variable {a b x y : String}

theorem neighbours_join {adjacency : Dict String (List String)} :
    y ∈ neighbours (join adjacency a b) x ↔ y ∈ neighbours adjacency x ∨ (x = a ∧ y = b) := by
  have hget : neighbours (join adjacency a b) x = if x = a then
      if b ∈ neighbours adjacency a then neighbours adjacency a else neighbours adjacency a ++ [b] else neighbours adjacency x := by
    rw [neighbours, join, Dict.get?_set]
    split <;> rfl
  rw [hget]
  by_cases hx : x = a
  · subst hx
    by_cases hb : b ∈ neighbours adjacency x
    · rw [if_pos rfl, if_pos hb]
      exact ⟨.inl, fun h => h.elim id fun heq => heq.2 ▸ hb⟩
    · rw [if_pos rfl, if_neg hb, List.mem_append, List.mem_singleton]
      simp
  · rw [if_neg hx]
    simp [hx]

theorem neighbours_link {threshold : Binary64} {adjacency : Dict String (List String)} :
    y ∈ neighbours (link threshold adjacency s) x ↔
      y ∈ neighbours adjacency x ∨ threshold.le s.score = true ∧ ((s.leftId = x ∧ s.rightId = y) ∨ (s.leftId = y ∧ s.rightId = x)) := by
  unfold link
  by_cases hscore : threshold.le s.score = true
  · rw [if_pos hscore, neighbours_join, neighbours_join]
    constructor
    · rintro ((h | ⟨rfl, rfl⟩) | ⟨rfl, rfl⟩)
      · exact .inl h
      · exact .inr ⟨hscore, .inl ⟨rfl, rfl⟩⟩
      · exact .inr ⟨hscore, .inr ⟨rfl, rfl⟩⟩
    · rintro (h | ⟨-, ⟨rfl, rfl⟩ | ⟨rfl, rfl⟩⟩)
      · exact .inl (.inl h)
      · exact .inl (.inr ⟨rfl, rfl⟩)
      · exact .inr ⟨rfl, rfl⟩
  · rw [if_neg hscore]
    exact ⟨.inl, fun h => h.elim id fun h => absurd h.1 hscore⟩

/-- The joined identifiers are those of the pairs that reach the threshold. -/
theorem neighbours_foldl_link {threshold : Binary64} (scored : List FindingSimilarity) {adjacency : Dict String (List String)}
    :
    y ∈ neighbours (scored.foldl (link threshold) adjacency) x ↔ y ∈ neighbours adjacency x ∨
      ∃ s ∈ scored, threshold.le s.score = true ∧ ((s.leftId = x ∧ s.rightId = y) ∨ (s.leftId = y ∧ s.rightId = x)) := by
  induction scored generalizing adjacency with
  | nil => simp
  | cons s scored ih =>
    rw [List.foldl_cons, ih, neighbours_link, or_assoc]
    simp only [List.mem_cons, exists_eq_or_imp]

theorem neighbours_start {ids : List String} (hids : ids.Nodup) (x : String) :
    neighbours (Dict.ofList (ids.map fun id => (id, ([] : List String)))) x = [] := by
  have hkeys : ((ids.map fun id => (id, ([] : List String))).map (·.1)).Nodup := by
    rw [List.map_map]
    exact (List.map_id ids).symm ▸ hids
  rw [neighbours]
  cases hget : (Dict.ofList (ids.map fun id => (id, ([] : List String)))).get? x with
  | none => rfl
  | some v =>
    have hmem := Dict.mem_entries.mpr hget
    rw [Dict.entries_ofList hkeys] at hmem
    obtain ⟨id, -, heq⟩ := List.mem_map.mp hmem
    cases heq
    rfl

variable (env) in
/-- Two findings whose score reaches the threshold. -/
def Linked (threshold : Binary64) (findings : List AuditEntry) (a b : String) : Prop :=
  a ≠ b ∧ ∃ left ∈ findings, ∃ right ∈ findings, findingId left = a ∧ findingId right = b ∧
    ∃ s, scoreFindingSimilarity env left right = .ok s ∧ threshold.le s.score = true

variable {findings : List AuditEntry} {threshold : Binary64}

theorem Linked.symm (h : Linked env threshold findings a b) : Linked env threshold findings b a := by
  obtain ⟨hne, left, hleft, right, hright, ha, hb, s, hs, hscore⟩ := h
  obtain ⟨s', hs', heq⟩ := score_symm hs
  exact ⟨hne.symm, right, hright, left, hleft, hb, ha, s', hs', heq ▸ hscore⟩

theorem Linked.reach_symm (h : ReflTransGen (Linked env threshold findings) a b) :
    ReflTransGen (Linked env threshold findings) b a := by
  induction h with
  | refl => exact .refl
  | tail _ hstep ih => exact .head hstep.symm ih

theorem linked_of_pair (hids : (findings.map findingId).Nodup) (hmem : (left, right) ∈ pairsOf (ordered findings))
    (hs : scoreFindingSimilarity env left right = .ok s) (hscore : threshold.le s.score = true) :
    Linked env threshold findings s.leftId s.rightId := by
  obtain ⟨_, _, _, _, -, -, -, -, hleftId, hrightId, -⟩ := score_ok hs
  have hids' : ((ordered findings).map findingId).Nodup := ((ordered_perm findings).map findingId).nodup_iff.mpr hids
  obtain ⟨hleft, hright⟩ := mem_of_mem_pairsOf hmem
  rw [hleftId, hrightId]
  exact ⟨ne_of_mem_pairsOf hids' hmem, left, (ordered_perm findings).mem_iff.mp hleft, right,
    (ordered_perm findings).mem_iff.mp hright, rfl, rfl, s, hs, hscore⟩

/-- The joined identifiers are those of linked findings. -/
theorem neighbours_iff_linked (hids : (findings.map findingId).Nodup)
    (h : similarities env (pairsOf (ordered findings)) = .ok scored) (a b : String) :
    b ∈ neighbours (adjacencyOf threshold ((ordered findings).map findingId) scored) a ↔ Linked env threshold findings a b := by
  have hids' : ((ordered findings).map findingId).Nodup := ((ordered_perm findings).map findingId).nodup_iff.mpr hids
  rw [adjacencyOf, neighbours_foldl_link, neighbours_start hids']
  constructor
  · rintro (hnil | ⟨s, hs, hscore, ⟨rfl, rfl⟩ | ⟨rfl, rfl⟩⟩)
    · cases hnil
    · obtain ⟨left, right, hmem, hs⟩ := (mem_similarities h).mp hs
      exact linked_of_pair hids hmem hs hscore
    · obtain ⟨left, right, hmem, hs⟩ := (mem_similarities h).mp hs
      exact (linked_of_pair hids hmem hs hscore).symm
  · rintro ⟨hne, left, hleft, right, hright, rfl, rfl, s, hs, hscore⟩
    right
    rcases mem_pairsOf ((ordered_perm findings).mem_iff.mpr hleft) ((ordered_perm findings).mem_iff.mpr hright) hne with hmem | hmem
    · obtain ⟨_, _, _, _, -, -, -, -, hleftId, hrightId, -⟩ := score_ok hs
      exact ⟨s, (mem_similarities h).mpr ⟨left, right, hmem, hs⟩, hscore, .inl ⟨hleftId, hrightId⟩⟩
    · obtain ⟨s', hs', heq⟩ := score_symm hs
      obtain ⟨_, _, _, _, -, -, -, -, hleftId, hrightId, -⟩ := score_ok hs'
      exact ⟨s', (mem_similarities h).mpr ⟨right, left, hmem, hs'⟩, heq ▸ hscore, .inr ⟨hleftId, hrightId⟩⟩

/-! ## The walk -/

variable {adjacency : Dict String (List String)}

variable (adjacency) in
/-- One identifier is joined with another. -/
def Joined (a b : String) : Prop := b ∈ neighbours adjacency a

variable (adjacency) in
/-- What the walk from a root keeps: its component is what it visited anew, the root reaches the component and the stack, and what
is joined with the component was visited or is on the stack. -/
structure Walked (root : String) (before stack visited component : List String) : Prop where
  mem_visited : ∀ {id}, id ∈ visited ↔ id ∈ before ∨ id ∈ component
  fresh : ∀ {id}, id ∈ component → id ∉ before
  nodup : component.Nodup
  component_reached : ∀ {id}, id ∈ component → ReflTransGen (Joined adjacency) root id
  stack_reached : ∀ {id}, id ∈ stack → ReflTransGen (Joined adjacency) root id
  next : ∀ {id other}, id ∈ component → Joined adjacency id other → other ∈ visited ∨ other ∈ stack
  start : root ∈ visited ∨ root ∈ stack

theorem mem_pushed {current id : String} {visited : List String} :
    id ∈ pushed adjacency current visited ↔ Joined adjacency current id ∧ id ∉ visited := by
  rw [pushed, sortedTexts, (List.perm_insertionSort _ _).mem_iff, List.mem_filter, decide_eq_true_iff, Joined]

variable {root current : String} {before stack visited component : List String}

/-- The top of the stack was visited. -/
theorem Walked.skip (hw : Walked adjacency root before (current :: stack) visited component) (hvisited : current ∈ visited) :
    Walked adjacency root before stack visited component := by
  have hpop : ∀ {id}, id ∈ visited ∨ id ∈ current :: stack → id ∈ visited ∨ id ∈ stack := by
    rintro id (h | h)
    · exact .inl h
    · rcases List.mem_cons.mp h with rfl | h
      · exact .inl hvisited
      · exact .inr h
  exact
    { hw with
      stack_reached := fun h => hw.stack_reached (List.mem_cons_of_mem _ h)
      next := fun hid hjoined => hpop (hw.next hid hjoined)
      start := hpop hw.start }

/-- The top of the stack was not visited: it joins the component. -/
theorem Walked.visit (hw : Walked adjacency root before (current :: stack) visited component) (hvisited : current ∉ visited) :
    Walked adjacency root before (pushed adjacency current (current :: visited) ++ stack) (current :: visited)
      (current :: component) := by
  have hcurrent := hw.stack_reached List.mem_cons_self
  have hpop : ∀ {id}, id ∈ visited ∨ id ∈ current :: stack →
      id ∈ current :: visited ∨ id ∈ pushed adjacency current (current :: visited) ++ stack := by
    rintro id (h | h)
    · exact .inl (List.mem_cons_of_mem _ h)
    · rcases List.mem_cons.mp h with rfl | h
      · exact .inl List.mem_cons_self
      · exact .inr (List.mem_append_right _ h)
  refine ⟨?_, ?_, ?_, ?_, ?_, ?_, hpop hw.start⟩
  · intro id
    rw [List.mem_cons, hw.mem_visited, List.mem_cons]
    tauto
  · intro id hid
    rcases List.mem_cons.mp hid with rfl | hid
    · exact fun hbefore => hvisited (hw.mem_visited.mpr (.inl hbefore))
    · exact hw.fresh hid
  · exact List.nodup_cons.mpr ⟨fun hmem => hvisited (hw.mem_visited.mpr (.inr hmem)), hw.nodup⟩
  · intro id hid
    rcases List.mem_cons.mp hid with rfl | hid
    · exact hcurrent
    · exact hw.component_reached hid
  · intro id hid
    rcases List.mem_append.mp hid with hid | hid
    · exact hcurrent.tail (mem_pushed.mp hid).1
    · exact hw.stack_reached (List.mem_cons_of_mem _ hid)
  · intro id other hid hjoined
    rcases List.mem_cons.mp hid with rfl | hid
    · by_cases hother : other ∈ id :: visited
      · exact .inl hother
      · exact .inr (List.mem_append_left _ (mem_pushed.mpr ⟨hjoined, hother⟩))
    · exact hpop (hw.next hid hjoined)

theorem Walked.run (hw : Walked adjacency root before stack visited component) :
    Walked adjacency root before [] (walk adjacency stack visited component).2 (walk adjacency stack visited component).1 := by
  fun_induction walk adjacency stack visited component with
  | case1 visited component => exact hw
  | case2 visited component current stack hvisited ih => exact ih (hw.skip hvisited)
  | case3 visited component current stack hvisited ih => exact ih (hw.visit hvisited)

/-- The identifiers that a set of identifiers is joined with are in it. -/
def Closed (adjacency : Dict String (List String)) (visited : List String) : Prop :=
  ∀ {id other}, id ∈ visited → Joined adjacency id other → other ∈ visited

/-- From a root that was not visited the walk finds all that the root reaches, and nothing that was visited. -/
theorem walk_from_root (hsymm : ∀ {a b}, Joined adjacency a b → Joined adjacency b a) (hclosed : Closed adjacency visited)
    (hroot : root ∉ visited) :
    (walk adjacency [root] visited []).1.Nodup ∧
      (∀ id, id ∈ (walk adjacency [root] visited []).1 ↔ ReflTransGen (Joined adjacency) root id) ∧
      (∀ id, id ∈ (walk adjacency [root] visited []).2 ↔ id ∈ visited ∨ id ∈ (walk adjacency [root] visited []).1) ∧
      (∀ id ∈ (walk adjacency [root] visited []).1, id ∉ visited) ∧ Closed adjacency (walk adjacency [root] visited []).2 := by
  have hstart : Walked adjacency root visited [root] visited [] :=
    { mem_visited := by simp
      fresh := fun h => nomatch h
      nodup := List.nodup_nil
      component_reached := fun h => nomatch h
      stack_reached := fun h => by
        rw [List.mem_singleton.mp h]
      next := fun h => nomatch h
      start := .inr List.mem_cons_self }
  have hw := hstart.run
  generalize walk adjacency [root] visited [] = walked at hw ⊢
  have hunvisited : ∀ {id}, ReflTransGen (Joined adjacency) root id → id ∉ visited := fun hreach =>
    Reachability.not_of_reach hsymm (fun hx hjoined => hclosed hx hjoined) hroot hreach
  have hinside : ∀ {id other}, id ∈ walked.1 → Joined adjacency id other → other ∈ walked.1 := by
    intro id other hid hjoined
    rcases hw.next hid hjoined with h | h
    · rcases hw.mem_visited.mp h with h | h
      · exact absurd h (hunvisited ((hw.component_reached hid).tail hjoined))
      · exact h
    · cases h
  have hrootMem : root ∈ walked.1 := by
    rcases hw.start with h | h
    · exact (hw.mem_visited.mp h).resolve_left hroot
    · cases h
  refine ⟨hw.nodup, fun id => ?_, fun id => hw.mem_visited, fun id hid => hw.fresh hid, ?_⟩
  · exact Reachability.mem_iff_reach (P := fun id => id ∈ walked.1) hrootMem hinside hw.component_reached
  · intro id other hid hjoined
    rcases hw.mem_visited.mp hid with h | h
    · exact hw.mem_visited.mpr (.inl (hclosed h hjoined))
    · exact hw.mem_visited.mpr (.inr (hinside h hjoined))

/-- The components: each is all that one of the roots reaches, no two share an identifier or have one that was visited, and every
root is in one or was visited. -/
theorem components_spec (hsymm : ∀ {a b}, Joined adjacency a b → Joined adjacency b a) (roots : List String)
    (hclosed : Closed adjacency visited) :
    (∀ c ∈ components adjacency roots visited, c.Nodup ∧ (∀ id ∈ c, id ∉ visited) ∧
        ∃ root ∈ roots, ∀ id, id ∈ c ↔ ReflTransGen (Joined adjacency) root id) ∧
      (components adjacency roots visited).Pairwise List.Disjoint ∧
      ∀ root ∈ roots, root ∈ visited ∨ ∃ c ∈ components adjacency roots visited, root ∈ c := by
  fun_induction components adjacency roots visited with
  | case1 visited => simp
  | case2 root roots visited hvisited ih =>
    obtain ⟨hcomponents, hdisjoint, hall⟩ := ih hclosed
    refine ⟨fun c hc => ?_, hdisjoint, fun id hid => ?_⟩
    · obtain ⟨hnodup, hfresh, r, hr, hreach⟩ := hcomponents c hc
      exact ⟨hnodup, hfresh, r, List.mem_cons_of_mem _ hr, hreach⟩
    · rcases List.mem_cons.mp hid with rfl | hid
      · exact .inl hvisited
      · exact hall id hid
  | case3 root roots visited hvisited walked ih =>
    obtain ⟨hnodup, hreach, hmem, hfresh, hclosed'⟩ := walk_from_root hsymm hclosed hvisited
    obtain ⟨hcomponents, hdisjoint, hall⟩ := ih hclosed'
    refine ⟨fun c hc => ?_, List.pairwise_cons.mpr ⟨fun c hc => ?_, hdisjoint⟩, fun id hid => ?_⟩
    · rcases List.mem_cons.mp hc with rfl | hc
      · exact ⟨hnodup, hfresh, root, List.mem_cons_self, hreach⟩
      · obtain ⟨hnodup, hfresh, r, hr, hreach⟩ := hcomponents c hc
        exact ⟨hnodup, fun id hid hvisited => hfresh id hid ((hmem id).mpr (.inl hvisited)), r, List.mem_cons_of_mem _ hr, hreach⟩
    · exact fun id hid hidc => (hcomponents c hc).2.1 id hidc ((hmem id).mpr (.inr hid))
    · rcases List.mem_cons.mp hid with rfl | hid
      · exact .inr ⟨_, List.mem_cons_self, (hreach id).mpr .refl⟩
      · rcases hall id hid with h | ⟨c, hc, hidc⟩
        · rcases (hmem id).mp h with h | h
          · exact .inl h
          · exact .inr ⟨_, List.mem_cons_self, h⟩
        · exact .inr ⟨c, List.mem_cons_of_mem _ hc, hidc⟩

/-! ## The clusters -/

theorem sortedTexts_perm (l : List String) : (sortedTexts l).Perm l := List.perm_insertionSort _ l

theorem sortedTexts_sorted {l : List String} (h : l.Nodup) : (sortedTexts l).Pairwise (· < ·) := by
  have hle : (sortedTexts l).Pairwise (· ≤ ·) := List.pairwise_insertionSort (· ≤ ·) l
  have hne : (sortedTexts l).Pairwise (· ≠ ·) := (sortedTexts_perm l).nodup_iff.mpr h
  exact (hle.and hne).imp fun h => lt_of_le_of_ne h.1 h.2

/-- A set of identifiers is sorted in one way. -/
theorem sortedTexts_eq {l ids : List String} (hl : l.Nodup) (hids : ids.Pairwise (· < ·)) (h : ∀ id, id ∈ ids ↔ id ∈ l) :
    sortedTexts l = ids := by
  have hnodup : ids.Nodup := hids.imp ne_of_lt
  have hperm : (sortedTexts l).Perm ids := (sortedTexts_perm l).trans ((List.perm_ext_iff_of_nodup hl hnodup).mpr fun id => (h id).symm)
  exact hperm.eq_of_pairwise (fun a b _ _ hab hba => absurd hab (lt_asymm hba)) (sortedTexts_sorted hl) hids

/-- A threshold that the clustering takes. -/
def InRange (threshold : Binary64) : Prop := (Binary64.decimal 50 2).le threshold = true ∧ threshold.le .one = true

/-- A clustering that returns has scored all pairs. -/
theorem clusterFindings_ok {clusters : List FindingCluster} {scores : List FindingSimilarity}
    (h : clusterFindings env findings threshold = .ok (clusters, scores)) :
    ∃ scored, similarities env (pairsOf (ordered findings)) = .ok scored ∧
      (clusters.map (·.findingIds)).Perm (((components (adjacencyOf threshold ((ordered findings).map findingId) scored)
        ((ordered findings).map findingId) []).filter fun c => decide (2 ≤ c.length)).map sortedTexts) := by
  unfold clusterFindings at h
  split at h
  · cases hscored : similarities env (pairsOf (ordered findings)) with
    | error e => rw [hscored] at h; cases h
    | ok scored =>
      rw [hscored] at h
      cases h
      refine ⟨scored, rfl, ((List.perm_insertionSort _ _).map _).trans (List.Perm.of_eq ?_)⟩
      rw [List.map_map]
      rfl
  · cases h

theorem clusterFindings_isOk :
    (∃ result, clusterFindings env findings threshold = .ok result) ↔
      InRange threshold ∧ ∃ scored, similarities env (pairsOf (ordered findings)) = .ok scored := by
  unfold clusterFindings InRange
  split
  · rename_i hrange
    rw [Bool.and_eq_true] at hrange
    cases hscored : similarities env (pairsOf (ordered findings)) with
    | error e => exact ⟨fun ⟨_, h⟩ => (nomatch h), fun ⟨_, _, h⟩ => (nomatch h)⟩
    | ok scored => exact ⟨fun _ => ⟨hrange, scored, rfl⟩, fun _ => ⟨_, rfl⟩⟩
  · rename_i hrange
    rw [Bool.and_eq_true] at hrange
    exact ⟨fun ⟨_, h⟩ => (nomatch h), fun h => absurd h.1 hrange⟩

/-- Of two findings and more each is in a pair. -/
theorem exists_other (hids : (findings.map findingId).Nodup) (hlength : 2 ≤ findings.length) (left : AuditEntry) :
    ∃ right ∈ findings, findingId left ≠ findingId right := by
  by_contra hnone
  push Not at hnone
  have hall : ∀ id ∈ findings.map findingId, id = findingId left := by
    intro id hid
    obtain ⟨right, hright, rfl⟩ := List.mem_map.mp hid
    exact (hnone right hright).symm
  rw [List.eq_replicate_of_mem hall, List.nodup_replicate, List.length_map] at hids
  omega

/-- All pairs are scored exactly when there is none, or when each finding can be read. -/
theorem scored_iff (hids : (findings.map findingId).Nodup) :
    (∃ scored, similarities env (pairsOf (ordered findings)) = .ok scored) ↔
      findings.length ≤ 1 ∨ ∀ finding ∈ findings, Readable env finding := by
  have hmem : ∀ {finding}, finding ∈ ordered findings ↔ finding ∈ findings := (ordered_perm findings).mem_iff
  rw [similarities_isOk]
  constructor
  · intro h
    by_cases hlength : findings.length ≤ 1
    · exact .inl hlength
    · right
      intro finding hfinding
      obtain ⟨other, hother, hne⟩ := exists_other hids (by omega) finding
      rcases mem_pairsOf (hmem.mpr hfinding) (hmem.mpr hother) hne with hpair | hpair
      · obtain ⟨s, hs⟩ := h _ _ hpair
        exact (readable_of_score hs).1
      · obtain ⟨s, hs⟩ := h _ _ hpair
        exact (readable_of_score hs).2
  · rintro (hlength | hall) left right hpair
    · obtain ⟨hleft, hright⟩ := mem_of_mem_pairsOf hpair
      have hids' : ((ordered findings).map findingId).Nodup := ((ordered_perm findings).map findingId).nodup_iff.mpr hids
      have hshort : (ordered findings).length ≤ 1 := (ordered_perm findings).length_eq ▸ hlength
      have heq : left = right := by
        obtain ⟨i, hi, rfl⟩ := List.mem_iff_getElem.mp hleft
        obtain ⟨j, hj, rfl⟩ := List.mem_iff_getElem.mp hright
        congr 1
        omega
      exact absurd (congrArg findingId heq) (ne_of_mem_pairsOf hids' hpair)
    · obtain ⟨hleft, hright⟩ := mem_of_mem_pairsOf hpair
      exact exists_score (hall left (hmem.mp hleft)) (hall right (hmem.mp hright))

/-- The clusters are the components of two and more findings that the links make, in whatever order the findings come. -/
theorem clusters_are_components (env : ReviewEnv) (findings : List AuditEntry) (threshold : Binary64)
    (hids : (findings.map findingId).Nodup) :
    (∀ other : List AuditEntry, other.Perm findings → clusterFindings env other threshold = clusterFindings env findings threshold) ∧
      (∀ a b, Linked env threshold findings a b → Linked env threshold findings b a) ∧
      ((∃ result, clusterFindings env findings threshold = .ok result) ↔
        InRange threshold ∧ (findings.length ≤ 1 ∨ ∀ finding ∈ findings, Readable env finding)) ∧
      ∀ clusters scores, clusterFindings env findings threshold = .ok (clusters, scores) →
        (∀ ids : List String, ids ∈ clusters.map (·.findingIds) ↔ ids.Pairwise (· < ·) ∧ 2 ≤ ids.length ∧
          ∃ a ∈ findings.map findingId, ∀ b, b ∈ ids ↔ ReflTransGen (Linked env threshold findings) a b) ∧
        (clusters.map (·.findingIds)).Pairwise List.Disjoint := by
  refine ⟨fun other hother => ?_, fun a b h => h.symm, ?_, fun clusters scores h => ?_⟩
  · simp only [clusterFindings, ordered_eq_of_perm hids hother]
  · rw [clusterFindings_isOk, scored_iff hids]
  · obtain ⟨scored, hscored, hclusters⟩ := clusterFindings_ok h
    have hjoined : Joined (adjacencyOf threshold ((ordered findings).map findingId) scored) = Linked env threshold findings := by
      funext a b
      exact propext (neighbours_iff_linked hids hscored a b)
    have hsymm : ∀ {a b}, Joined (adjacencyOf threshold ((ordered findings).map findingId) scored) a b →
        Joined (adjacencyOf threshold ((ordered findings).map findingId) scored) b a := fun {a b} h => by
      rw [hjoined] at h ⊢
      exact h.symm
    have hclosed : Closed (adjacencyOf threshold ((ordered findings).map findingId) scored) [] := fun hid => nomatch hid
    have hspec := components_spec hsymm ((ordered findings).map findingId) hclosed
    rw [hjoined] at hspec
    generalize components _ ((ordered findings).map findingId) [] = found at hclusters hspec
    obtain ⟨hcomponents, hdisjoint, hall⟩ := hspec
    have hmemIds : ∀ {id}, id ∈ (ordered findings).map findingId ↔ id ∈ findings.map findingId :=
      ((ordered_perm findings).map findingId).mem_iff
    constructor
    · intro ids
      rw [hclusters.mem_iff, List.mem_map]
      constructor
      · rintro ⟨c, hc, rfl⟩
        obtain ⟨hc, hlength⟩ := List.mem_filter.mp hc
        obtain ⟨hnodup, -, root, hroot, hreach⟩ := hcomponents c hc
        refine ⟨sortedTexts_sorted hnodup, ?_, root, hmemIds.mp hroot, fun b => ?_⟩
        · rw [(sortedTexts_perm c).length_eq]
          exact of_decide_eq_true hlength
        · rw [(sortedTexts_perm c).mem_iff, hreach]
      · rintro ⟨hsorted, hlength, a, ha, hreach⟩
        obtain ⟨c, hc, hac⟩ := (hall a (hmemIds.mpr ha)).resolve_left (fun h => nomatch h)
        obtain ⟨hnodup, -, root, -, hrootReach⟩ := hcomponents c hc
        -- the component of `a` and the one of its root are one
        have hroot := (hrootReach a).mp hac
        have hsame : ∀ b, b ∈ ids ↔ b ∈ c := fun b => by
          rw [hreach, hrootReach]
          exact ⟨hroot.trans, (Linked.reach_symm hroot).trans⟩
        have heq := sortedTexts_eq hnodup hsorted hsame
        refine ⟨c, List.mem_filter.mpr ⟨hc, decide_eq_true ?_⟩, heq⟩
        rwa [← (sortedTexts_perm c).length_eq, heq]
    · have hdisjointSorted : ((found.filter fun c => decide (2 ≤ c.length)).map sortedTexts).Pairwise List.Disjoint := by
        rw [List.pairwise_map]
        refine (hdisjoint.sublist List.filter_sublist).imp fun {c d} h => ?_
        intro id hc hd
        exact h ((sortedTexts_perm c).mem_iff.mp hc) ((sortedTexts_perm d).mem_iff.mp hd)
      exact (hclusters.pairwise_iff fun h => h.symm).mpr hdisjointSorted

/-- Two reports of one weakness. -/
def sampleReports : List AuditEntry := ReportReview.sampleFindings [("b", "new"), ("a", "new")]

theorem sampleReports_score :
    (scoreFindingSimilarity ReportReview.sampleReview (ReportReview.sampleFinding "a" "new")
      (ReportReview.sampleFinding "b" "new")).toOption.map (fun s => (Binary64.decimal 50 2).le s.score) = some true := by
  decide +kernel

theorem sampleReports_linked : Linked ReportReview.sampleReview (.decimal 50 2) sampleReports "a" "b" := by
  refine ⟨by decide, ReportReview.sampleFinding "a" "new", .tail _ (.head _), ReportReview.sampleFinding "b" "new", .head _,
    by decide +kernel, by decide +kernel, ?_⟩
  have hscore := sampleReports_score
  cases hs : scoreFindingSimilarity ReportReview.sampleReview (ReportReview.sampleFinding "a" "new")
      (ReportReview.sampleFinding "b" "new") with
  | error e =>
    rw [hs] at hscore
    cases hscore
  | ok s =>
    rw [hs] at hscore
    exact ⟨s, rfl, Option.some.inj hscore⟩

theorem sampleReports_ids : sampleReports.map findingId = ["b", "a"] := by decide +kernel

/-- Two reports of one weakness make one cluster. -/
theorem clusters_are_components_sample :
    (sampleReports.map findingId).Nodup ∧ ∃ clusters scores,
      clusterFindings ReportReview.sampleReview sampleReports (.decimal 50 2) = .ok (clusters, scores) ∧
        ["a", "b"] ∈ clusters.map (·.findingIds) := by
  have hids : (sampleReports.map findingId).Nodup := by
    rw [sampleReports_ids]
    decide
  obtain ⟨-, -, hok, hclusters⟩ := clusters_are_components ReportReview.sampleReview sampleReports (.decimal 50 2) hids
  have hreadable : ∀ finding ∈ sampleReports, Readable ReportReview.sampleReview finding := by
    intro finding hfinding
    have hscored := sampleReports_score
    cases hpair : scoreFindingSimilarity ReportReview.sampleReview (ReportReview.sampleFinding "a" "new")
        (ReportReview.sampleFinding "b" "new") with
    | error e =>
      rw [hpair] at hscored
      cases hscored
    | ok s =>
      have hread := readable_of_score hpair
      rcases List.mem_cons.mp hfinding with rfl | hfinding
      · exact hread.2
      · rw [List.mem_singleton.mp hfinding]
        exact hread.1
  obtain ⟨⟨clusters, scores⟩, hresult⟩ := hok.mpr ⟨⟨by decide +kernel, by decide +kernel⟩, .inr hreadable⟩
  refine ⟨hids, clusters, scores, hresult, ((hclusters clusters scores hresult).1 ["a", "b"]).mpr ⟨by decide, by decide, "a", ?_, ?_⟩⟩
  · rw [sampleReports_ids]
    decide
  · intro b
    constructor
    · intro hb
      rcases List.mem_cons.mp hb with rfl | hb
      · exact .refl
      · rw [List.mem_singleton.mp hb]
        exact .single sampleReports_linked
    · intro hreach
      rcases Relation.ReflTransGen.cases_tail hreach with rfl | ⟨_, -, hstep⟩
      · decide
      · obtain ⟨-, _, -, right, hright, -, rfl, -⟩ := hstep
        have hmem : findingId right ∈ sampleReports.map findingId := List.mem_map_of_mem hright
        rw [sampleReports_ids] at hmem
        simpa [or_comm] using hmem

end FindingClusters

end XbowPerso
