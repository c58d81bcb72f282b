import XbowPerso.Lib.Binary64
import XbowPerso.ReportReadiness

/-!
# Clusters of findings

`score_finding_similarity` rates how likely two findings are one, and `cluster_findings` joins the findings whose rating reaches a
threshold. The walk over the joined findings takes the top of its stack, passes over what was visited, and pushes the neighbours that
were not, the least one on top. Identifiers, assets and titles are texts; `to_dict` and the route are left out.
-/

namespace XbowPerso

namespace FindingClusters

open AuditSeal ReportApproval ReportReadiness

/-! ## The score of a pair -/

/-- `[a-z0-9]` -/
def isTokenChar (c : Char) : Bool := decide (('a' ≤ c ∧ c ≤ 'z') ∨ ('0' ≤ c ∧ c ≤ '9'))

/-- The words that say nothing about a title. -/
def stopWords : List String := ["the", "and", "for", "with", "from", "this", "that"]

variable (env : ReviewEnv)

/-- `_title_tokens` -/
def titleTokens : Option String → List String
  | none => []
  | some value =>
    ((((env.unicode.lower value.toList).splitOnP fun c => !isTokenChar c).map String.ofList).filter fun token =>
      decide (3 ≤ token.length) && decide (token ∉ stopWords)).dedup

/-- The tokens that two titles share. -/
def shared (left right : List String) : List String := left.filter fun token => decide (token ∈ right)

/-- `_jaccard` -/
def jaccard (left right : List String) : Binary64 :=
  if h : 0 < left.length + right.length - (shared left right).length then Binary64.ofQuotient (shared left right).length h
  else Binary64.zero

/-- `FindingSimilarity` -/
structure FindingSimilarity where
  leftId : String
  rightId : String
  score : Binary64
  sameAsset : Bool
  sameEndpoint : Bool
  sameCwe : Bool
  titleSimilarity : Binary64
  reasons : List String

/-- `str(item.id)` -/
def findingId (finding : AuditEntry) : String := textOf finding "id"

/-- The asset of a finding, in its canonical spelling. -/
def assetOf (finding : AuditEntry) : Except PyError String :=
  match canonicalUrl env (some (textOf finding "asset")) with
  | .error e => .error e
  | .ok asset => .ok ((orElse asset (some (stripLower env (textOf finding "asset")))).getD "")

/-- The endpoint of a finding, in its canonical spelling. -/
def endpointOf (finding : AuditEntry) : Except PyError (Option String) := canonicalUrl env (text? (finding.get "endpoint"))

/-- The weakness of a finding. -/
def cweOf (finding : AuditEntry) : Option String :=
  spelled (fun s => env.upper (PyText.strip s)) (text? (finding.get "cwe"))

/-- Two texts that are there and are one. -/
def sameText (left right : Option String) : Bool := present left && present right && decide (left = right)

/-- `components` -/
def scoreComponents (sameAsset sameEndpoint sameCwe : Bool) (titleSimilarity : Binary64) : List (String × Binary64) :=
  [("asset", if sameAsset then .decimal 25 2 else .zero), ("endpoint", if sameEndpoint then .decimal 35 2 else .zero),
    ("cwe", if sameCwe then .decimal 25 2 else .zero),
    ("title", .roundDecimals 4 (titleSimilarity.mul (.decimal 15 2)))]

/-- The score of a pair: findings of two assets never count as one for their title and weakness alone. -/
def scoreOf (sameAsset sameEndpoint sameCwe : Bool) (titleSimilarity : Binary64) : Binary64 :=
  let score := Binary64.roundDecimals 4 (.sum ((scoreComponents sameAsset sameEndpoint sameCwe titleSimilarity).map (·.2)))
  if sameAsset then score else if (Binary64.decimal 40 2).lt score then .decimal 40 2 else score

/-- `score_finding_similarity` -/
def scoreFindingSimilarity (left right : AuditEntry) : Except PyError FindingSimilarity := do
  let leftAsset ← assetOf env left
  let rightAsset ← assetOf env right
  let leftEndpoint ← endpointOf env left
  let rightEndpoint ← endpointOf env right
  let sameAsset := decide (leftAsset = rightAsset)
  let sameEndpoint := sameText leftEndpoint rightEndpoint
  let sameCwe := sameText (cweOf env left) (cweOf env right)
  let titleSimilarity := jaccard (titleTokens env (text? (left.get "title"))) (titleTokens env (text? (right.get "title")))
  pure
    { leftId := findingId left
      rightId := findingId right
      score := scoreOf sameAsset sameEndpoint sameCwe titleSimilarity
      sameAsset := sameAsset
      sameEndpoint := sameEndpoint
      sameCwe := sameCwe
      titleSimilarity := .roundDecimals 4 titleSimilarity
      reasons := ((scoreComponents sameAsset sameEndpoint sameCwe titleSimilarity).filter fun e => Binary64.zero.lt e.2).map (·.1) }

/-! ## The graph -/

/-- `sorted(findings, key=lambda item: str(item.id))` -/
def ordered (findings : List AuditEntry) : List AuditEntry := findings.insertionSort fun a b => findingId a ≤ findingId b

/-- Every finding with every later one. -/
def pairsOf : List AuditEntry → List (AuditEntry × AuditEntry)
  | [] => []
  | left :: rest => (rest.map fun right => (left, right)) ++ pairsOf rest

/-- `similarities`, in the order of the pairs. -/
def similarities : List (AuditEntry × AuditEntry) → Except PyError (List FindingSimilarity)
  | [] => .ok []
  | (left, right) :: pairs => do
    let similarity ← scoreFindingSimilarity env left right
    let rest ← similarities pairs
    pure (similarity :: rest)

/-- The identifiers that one is joined with. -/
def neighbours (adjacency : Dict String (List String)) (id : String) : List String := (adjacency.get? id).getD []

/-- `adjacency[left].add(right)` -/
def join (adjacency : Dict String (List String)) (left right : String) : Dict String (List String) :=
  adjacency.set left (if right ∈ neighbours adjacency left then neighbours adjacency left else neighbours adjacency left ++ [right])

/-- A pair whose score reaches the threshold is joined in both directions. -/
def link (threshold : Binary64) (adjacency : Dict String (List String)) (s : FindingSimilarity) : Dict String (List String) :=
  if threshold.le s.score then join (join adjacency s.leftId s.rightId) s.rightId s.leftId else adjacency

/-- `adjacency` -/
def adjacencyOf (threshold : Binary64) (ids : List String) (similarities : List FindingSimilarity) : Dict String (List String) :=
  similarities.foldl (link threshold) (Dict.ofList (ids.map fun id => (id, [])))

/-! ## The components -/

/-- The identifiers that were not visited. -/
def unvisited (adjacency : Dict String (List String)) (visited : List String) : List String :=
  adjacency.keys.filter fun id => decide (id ∉ visited)

/-- `sorted(adjacency[current] - visited, reverse=True)`, the top of the stack first. -/
def pushed (adjacency : Dict String (List String)) (current : String) (visited : List String) : List String :=
  sortedTexts ((neighbours adjacency current).filter fun id => decide (id ∉ visited))

theorem unvisited_cons_length_le (adjacency : Dict String (List String)) (visited : List String) (id : String) :
    (unvisited adjacency (id :: visited)).length ≤ (unvisited adjacency visited).length := by
  refine (List.monotone_filter_right _ fun x hx => ?_).length_le
  simp only [decide_eq_true_eq] at hx ⊢
  exact fun hmem => hx (List.mem_cons_of_mem _ hmem)

theorem unvisited_cons_length_lt {adjacency : Dict String (List String)} {visited : List String} {id : String}
    (hkey : id ∈ adjacency.keys) (hfresh : id ∉ visited) :
    (unvisited adjacency (id :: visited)).length < (unvisited adjacency visited).length := by
  have hmem : id ∈ unvisited adjacency visited := List.mem_filter.mpr ⟨hkey, decide_eq_true hfresh⟩
  have hsplit : unvisited adjacency (id :: visited) = (unvisited adjacency visited).filter fun x => decide (x ≠ id) := by
    rw [unvisited, unvisited, List.filter_filter]
    refine List.filter_congr fun x _ => ?_
    by_cases hx : x = id <;> simp [hx]
  rw [hsplit]
  exact List.length_filter_lt_length_iff_exists.mpr ⟨id, hmem, by simp⟩

theorem pushed_of_not_mem_keys {adjacency : Dict String (List String)} {id : String} (hkey : id ∉ adjacency.keys)
    (visited : List String) : pushed adjacency id visited = [] := by
  rw [pushed, neighbours, Dict.get?_eq_none.mpr hkey]
  rfl

/-- The walk: the stack with its top first, what was visited, and the component. -/
def walk (adjacency : Dict String (List String)) : List String → List String → List String → List String × List String
  | [], visited, component => (component, visited)
  | current :: stack, visited, component =>
    if _hvisited : current ∈ visited then walk adjacency stack visited component
    else walk adjacency (pushed adjacency current (current :: visited) ++ stack) (current :: visited) (current :: component)
termination_by stack visited => ((unvisited adjacency visited).length, stack.length)
decreasing_by
  · exact Prod.Lex.right _ (by simp)
  · by_cases hkey : current ∈ adjacency.keys
    · exact Prod.Lex.left _ _ (unvisited_cons_length_lt hkey _hvisited)
    · rw [pushed_of_not_mem_keys hkey]
      rcases Nat.lt_or_eq_of_le (unvisited_cons_length_le adjacency visited current) with hlt | heq
      · exact Prod.Lex.left _ _ hlt
      · rw [heq]
        exact Prod.Lex.right _ (by simp)

/-- The components of the identifiers that were not visited. -/
def components (adjacency : Dict String (List String)) : List String → List String → List (List String)
  | [], _ => []
  | root :: roots, visited =>
    if root ∈ visited then components adjacency roots visited
    else
      let walked := walk adjacency [root] visited []
      walked.1 :: components adjacency roots walked.2

/-! ## The clusters -/

/-- `FindingCluster` -/
structure FindingCluster where
  clusterId : String
  findingIds : List String
  confidence : Binary64
  pairScores : List Binary64
  autoMerge : Bool

/-- The cluster of a component. -/
def clusterOf (threshold : Binary64) (similarities : List FindingSimilarity) (component : List String) : FindingCluster :=
  let ids := sortedTexts component
  let pairScores := (similarities.filter fun s =>
    decide (s.leftId ∈ component) && decide (s.rightId ∈ component) && threshold.le s.score).map (·.score)
  { clusterId := "cluster:" ++ "|".intercalate ids
    findingIds := ids
    -- there is no mean of no scores
    confidence := .roundDecimals 4 (((Binary64.sum pairScores).div (.ofQuotient pairScores.length Nat.one_pos)).getD .zero)
    pairScores := pairScores
    autoMerge := false }

/-- One cluster comes before another: the surer one, and of two equally sure ones the one with the lesser identifier. -/
def clusterBefore (a b : FindingCluster) : Bool :=
  if a.confidence.eq b.confidence then decide (a.clusterId < b.clusterId) else b.confidence.lt a.confidence

/-- One similarity comes before another. -/
def similarityBefore (a b : FindingSimilarity) : Bool :=
  if a.score.eq b.score then decide (a.leftId < b.leftId ∨ (a.leftId = b.leftId ∧ a.rightId < b.rightId)) else b.score.lt a.score

/-- `cluster_findings` -/
def clusterFindings (findings : List AuditEntry) (threshold : Binary64) :
    Except PyError (List FindingCluster × List FindingSimilarity) :=
  if (Binary64.decimal 50 2).le threshold && threshold.le .one then do
    let scored ← similarities env (pairsOf (ordered findings))
    let ids := (ordered findings).map findingId
    let found := (components (adjacencyOf threshold ids scored) ids []).filter fun component => decide (2 ≤ component.length)
    pure ((found.map (clusterOf threshold scored)).insertionSort fun a b => clusterBefore b a = false,
      scored.insertionSort fun a b => similarityBefore b a = false)
  else .error (.valueError "cluster threshold must be between 0.50 and 1.0")

end FindingClusters

end XbowPerso
