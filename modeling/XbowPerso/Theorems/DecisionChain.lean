import XbowPerso.SealedChain
import XbowPerso.Theorems.CampaignChain
import XbowPerso.Theorems.CircuitBreaker

/-!
# The chain of decisions under concurrent planners

A run that records on the graph as it is stored extends the chain. Two runs that loaded one graph take the same number.
-/

namespace XbowPerso

namespace DecisionAudit

open AuditSeal
open SealedChain (seq isSealed checkEntry checkEntries sortedSealed)

variable {env : AuditEnv} {secret : ResolvedSecret} {decisions : List Decision} {d : Decision}

/-! ## A sealed decision -/

theorem canonical_set {id k : String} {m : AuditEntry} {v : Json} (hv : v.Distinct) (hk : k ∉ auditFields) :
    canonicalDecisionPayload ⟨id, m.set k v hv⟩ = canonicalDecisionPayload ⟨id, m⟩ := by
  have hnames : auditFields.map (fun name => (name, (m.set k v hv).get name)) = auditFields.map fun name => (name, m.get name) := by
    refine List.map_congr_left fun name hname => ?_
    rw [AuditEntry.get_set, if_neg fun h : name = k => hk (h ▸ hname)]
  unfold canonicalDecisionPayload AuditEntry.canonicalOf
  dsimp only
  rw [hnames]

theorem canonical_seal (env : AuditEnv) (key : Option String) (id : String) (m : AuditEntry) :
    canonicalDecisionPayload ⟨id, sealDecisionMetadata env key id m⟩ = canonicalDecisionPayload ⟨id, m⟩ := by
  unfold sealDecisionMetadata
  dsimp only
  rw [canonical_set _ (by decide), canonical_set _ (by decide), canonical_set _ (by decide)]

/-- What the chain looks at in a sealed decision. -/
theorem get_toDecision (env : AuditEnv) (key : Option String) (content : Content) (graph : List Decision) :
    (content.toDecision env key graph).metadata.get "audit_seq" = .int (nextAuditLink env graph).1 ∧
      (content.toDecision env key graph).metadata.get "previous_decision_hash" = (nextAuditLink env graph).2 ∧
      (content.toDecision env key graph).metadata.get "decision_hash" =
        .str (env.sha.hex (canonicalDecisionPayload (content.toDecision env key graph))) ∧
      (content.toDecision env key graph).metadata.get "decision_signature_alg" =
        (sign env key (canonicalDecisionPayload (content.toDecision env key graph))).1 ∧
      (content.toDecision env key graph).metadata.get "decision_signature" =
        (sign env key (canonicalDecisionPayload (content.toDecision env key graph))).2 := by
  have hcanonical : canonicalDecisionPayload (content.toDecision env key graph) = canonicalDecisionPayload ⟨content.id env,
      (content.fields.set "audit_seq" (.int (nextAuditLink env graph).1) (distinct_int _)).set "previous_decision_hash"
        (nextAuditLink env graph).2 (nextAuditLink_distinct env graph)⟩ := canonical_seal env key _ _
  rw [hcanonical]
  unfold Content.toDecision sealDecisionMetadata
  simp [AuditEntry.get_set]

/-! ## The chain -/

/-- The hash that the next decision refers to. -/
def lastHash (env : AuditEnv) (decisions : List Decision) : Json :=
  match decisions.getLast? with
  | none => .null
  | some last => .str (env.str (last.metadata.get "decision_hash"))

/-- Sealed decisions with the numbers from one on, that pass the verification in their order. -/
structure Chain (env : AuditEnv) (secret : ResolvedSecret) (decisions : List Decision) : Prop where
  passes : checkEntries env format secret ⟨.null, 1, 0⟩ decisions =
    .ok (⟨lastHash env decisions, decisions.length + 1, decisions.length⟩, none)
  numbered : decisions.map (seq format) = (List.range decisions.length).map fun i : ℕ => (i : Int) + 1
  sealing : ∀ d ∈ decisions, isSealed format d = true
  nodup : (decisions.map Decision.id).Nodup

theorem Chain.nil : Chain env secret [] := ⟨rfl, rfl, fun _ h => absurd h List.not_mem_nil, List.nodup_nil⟩

theorem Chain.increasing (h : Chain env secret decisions) : (decisions.map (seq format)).Pairwise (· < ·) := by
  rw [h.numbered, List.pairwise_map]
  refine List.pairwise_lt_range.imp fun {a b} hab => ?_
  omega

/-- The greatest number is the last one. -/
theorem latest_eq_getLast? (h : (decisions.map (seq format)).Pairwise (· < ·)) : latest decisions = decisions.getLast? := by
  induction decisions using List.reverseRecOn with
  | nil => rfl
  | append_singleton init x ih =>
    rw [List.getLast?_concat]
    cases init with
    | nil => rfl
    | cons d rest =>
      rw [List.map_append, List.pairwise_append] at h
      have hbest := ih h.1
      show some ((rest ++ [x]).foldl _ d) = some x
      rw [List.foldl_concat]
      unfold latest at hbest
      have hmem := List.mem_of_getLast? hbest.symm
      have hlt := h.2.2 _ (List.mem_map_of_mem hmem) (seq format x) (by simp)
      rw [if_pos hlt]

theorem nextAuditLink_of_chain (h : Chain env secret decisions) :
    nextAuditLink env decisions = ((decisions.length : Int) + 1, lastHash env decisions) := by
  unfold nextAuditLink lastHash
  rw [List.filter_eq_self.mpr h.sealing, latest_eq_getLast? h.increasing]
  rcases List.eq_nil_or_concat decisions with rfl | ⟨init, last, rfl⟩
  · rfl
  · rw [List.concat_eq_append, List.getLast?_concat]
    dsimp only
    have hnumbered := h.numbered
    rw [List.concat_eq_append, List.map_append, List.length_append, List.length_singleton, List.range_succ, List.map_append] at hnumbered
    obtain ⟨-, hlast⟩ := List.append_inj' hnumbered rfl
    have hseq : seq format last = (init.length : Int) + 1 := (List.cons.inj hlast).1
    rw [hseq, List.length_append, List.length_singleton]
    push_cast
    rfl

theorem checkEntries_append {state next : SealedChain.State} {rest : List Decision}
    (h : checkEntries env format secret state decisions = .ok (next, none)) :
    checkEntries env format secret state (decisions ++ rest) = checkEntries env format secret next rest := by
  induction decisions generalizing state with
  | nil =>
    cases h
    rfl
  | cons d decisions ih =>
    unfold checkEntries at h
    rw [List.cons_append, checkEntries]
    split at h
    · cases h
    · cases h
    · exact ih h

theorem lastHash_pyEq (env : AuditEnv) (decisions : List Decision) : (lastHash env decisions).pyEq (lastHash env decisions) = true := by
  unfold lastHash
  split
  · exact pyEq_null
  · exact pyEq_str _

/-- A decision that passes the checks. -/
theorem checkEntry_of {state : SealedChain.State} (hnumber : seq format d = state.expectedSeq)
    (hprevious : (d.metadata.get "previous_decision_hash").pyEq state.previous = true)
    (hdigest : compareDigest env (d.metadata.get "decision_hash") (env.sha.hex (canonicalDecisionPayload d)) = .ok true)
    (hsigned : checkSignature env "decision" secret (d.metadata.get "decision_signature") (d.metadata.get "decision_signature_alg")
      (canonicalDecisionPayload d) = .ok none) :
    checkEntry env format secret state d =
      .ok (.ok ⟨.str (env.str (d.metadata.get "decision_hash")), state.expectedSeq + 1, state.checked + 1⟩) := by
  have hback : ¬ ((format.entry d).get format.previousField).pyEq state.previous = false := (Bool.not_eq_false _).mpr hprevious
  unfold checkEntry
  dsimp only
  rw [if_neg (not_not.mpr hnumber), if_neg hback]
  dsimp only [format]
  rw [hdigest]
  dsimp only
  rw [hsigned]

/-- A decision that is linked to the chain and sealed with the key extends it. -/
theorem Chain.concat (h : Chain env secret decisions) (hseq : d.metadata.get "audit_seq" = .int ((decisions.length : Int) + 1))
    (hprevious : d.metadata.get "previous_decision_hash" = lastHash env decisions)
    (hhash : d.metadata.get "decision_hash" = .str (env.sha.hex (canonicalDecisionPayload d)))
    (halg : d.metadata.get "decision_signature_alg" = (sign env secret.key (canonicalDecisionPayload d)).1)
    (hsignature : d.metadata.get "decision_signature" = (sign env secret.key (canonicalDecisionPayload d)).2)
    (hnew : d.id ∉ decisions.map Decision.id) : Chain env secret (decisions ++ [d]) := by
  have hnumber : seq format d = (decisions.length : Int) + 1 := by
    show (SealedChain.seqOf (d.metadata.get "audit_seq")).getD 0 = _
    rw [hseq]
    rfl
  have hdigest : compareDigest env (d.metadata.get "decision_hash") (env.sha.hex (canonicalDecisionPayload d)) = .ok true := by
    rw [hhash]
    exact compareDigest_self env (env.sha.hex_valid _)
  have hsigned : checkSignature env "decision" secret (d.metadata.get "decision_signature") (d.metadata.get "decision_signature_alg")
      (canonicalDecisionPayload d) = .ok none := by
    rw [hsignature, halg]
    exact checkSignature_sign env "decision" (.inr rfl) _
  have hback : (d.metadata.get "previous_decision_hash").pyEq (lastHash env decisions) = true := by
    rw [hprevious]
    exact lastHash_pyEq env decisions
  have hcheck : checkEntry env format secret ⟨lastHash env decisions, decisions.length + 1, decisions.length⟩ d =
      .ok (.ok ⟨.str (env.str (d.metadata.get "decision_hash")), (decisions.length : Int) + 1 + 1, decisions.length + 1⟩) :=
    checkEntry_of hnumber hback hdigest hsigned
  refine ⟨?_, ?_, ?_, ?_⟩
  · rw [checkEntries_append h.passes, checkEntries, hcheck]
    dsimp only
    rw [checkEntries]
    refine congrArg (fun state => Except.ok (state, none)) ?_
    have hlast : lastHash env (decisions ++ [d]) = .str (env.str (d.metadata.get "decision_hash")) := by
      unfold lastHash
      rw [List.getLast?_concat]
    rw [hlast, List.length_append, List.length_singleton]
    push_cast
    rfl
  · rw [List.map_append, h.numbered, List.length_append, List.length_singleton, List.range_succ, List.map_append, List.map_singleton,
      List.map_singleton, hnumber]
  · intro x hx
    rcases List.mem_append.mp hx with hx | hx
    · exact h.sealing x hx
    · rw [List.mem_singleton.mp hx]
      unfold isSealed
      dsimp only [format]
      rw [hseq, hhash]
      have hne : env.sha.hex (canonicalDecisionPayload d) ≠ "" := by
        intro hempty
        have hvalid := env.sha.hex_valid (canonicalDecisionPayload d)
        rw [hempty] at hvalid
        exact absurd hvalid (by decide)
      simp [SealedChain.seqOf, truthy, hne]
  · rw [List.map_append, List.nodup_append]
    refine ⟨h.nodup, List.nodup_singleton _, ?_⟩
    intro a ha b hb hab
    rw [List.mem_singleton.mp hb] at hab
    exact hnew (hab ▸ ha)

/-- A decision that is recorded on the chain extends it. -/
theorem Chain.record (h : Chain env secret decisions) (content : Content) (hnew : content.id env ∉ decisions.map Decision.id) :
    Chain env secret (decisions ++ [content.toDecision env secret.key decisions]) := by
  obtain ⟨hseq, hprevious, hhash, halg, hsignature⟩ := get_toDecision env secret.key content decisions
  rw [nextAuditLink_of_chain h] at hseq hprevious
  exact h.concat hseq hprevious hhash halg hsignature hnew

/-- The verification accepts a chain. -/
theorem Chain.valid (h : Chain env secret decisions) :
    ∃ verdict, verifyDecisionAuditChain env secret decisions = .ok verdict ∧ verdict.valid = true := by
  have hsorted : sortedSealed format decisions = decisions := by
    unfold sortedSealed
    rw [List.filter_eq_self.mpr h.sealing]
    have hle : decisions.Pairwise fun a b => seq format a ≤ seq format b := (List.pairwise_map.mp h.increasing).imp fun hlt => hlt.le
    exact hle.insertionSort_eq
  unfold verifyDecisionAuditChain SealedChain.verify
  rw [hsorted, h.passes]
  exact ⟨_, rfl, rfl⟩

/-! ## Runs -/

/-- What a step needs: a run that records has loaded the decisions that are stored. -/
def StepCondition (s : Planners) : Step → Prop
  | .load _ => True
  | .record run _ => ∀ graph, s.loaded run = some graph → graph = s.stored

/-- Every step has what it needs, in the state that it finds. -/
def RunCondition (env : AuditEnv) (secret : ResolvedSecret) : Planners → List Step → Prop
  | _, [] => True
  | s, x :: l => StepCondition s x ∧ RunCondition env secret (step env secret s x) l

/-- A recording that goes through. -/
def TakesEffect (env : AuditEnv) (secret : ResolvedSecret) (s : Planners) : Step → Prop
  | .load _ => False
  | .record run content => ∃ graph stored, s.loaded run = some graph ∧ recordDecision env secret s.stored graph content = .ok stored

/-- The identifier of what a step records. -/
def Step.recorded? (env : AuditEnv) : Step → Option String
  | .load _ => none
  | .record _ content => some (content.id env)

theorem putDecision_new (h : d.id ∉ decisions.map Decision.id) : putDecision decisions d = .ok (decisions ++ [d]) := by
  unfold putDecision
  have hfind : decisions.find? (fun x => decide (x.id = d.id)) = none := by
    refine List.find?_eq_none.mpr fun x hx hid => h (List.mem_map.mpr ⟨x, hx, of_decide_eq_true hid⟩)
  rw [hfind]

variable {content : Content}

/-- A recording on the decisions that are stored extends the chain, unless its decision is there. -/
theorem recordDecision_cases {stored : List Decision}
    (h : recordDecision env secret decisions decisions content = .ok stored) :
    (stored = decisions ∧ content.id env ∈ decisions.map Decision.id) ∨
      (stored = decisions ++ [content.toDecision env secret.key decisions] ∧ content.id env ∉ decisions.map Decision.id) := by
  unfold recordDecision at h
  split at h
  · rename_i hold
    cases h
    exact .inl ⟨rfl, hold⟩
  · rename_i hnew
    split at h
    · cases h
    rw [putDecision_new hnew] at h
    cases h
    exact .inr ⟨rfl, hnew⟩

variable {s : Planners}

/-- What a recording makes of the stored decisions. -/
theorem stored_record {run : Nat} {graph : List Decision} (hloaded : s.loaded run = some graph) :
    (step env secret s (.record run content)).stored =
      match recordDecision env secret s.stored graph content with
      | .error _ => s.stored
      | .ok stored => stored := by
  unfold step
  dsimp only
  rw [hloaded]
  dsimp only
  cases recordDecision env secret s.stored graph content with
  | error e => rfl
  | ok stored => rfl

/-- A run that has loaded nothing records nothing. -/
theorem stored_record_none {run : Nat} (hloaded : s.loaded run = none) :
    (step env secret s (.record run content)).stored = s.stored := by
  unfold step
  dsimp only
  rw [hloaded]

/-- A step keeps the chain and what is on it, and puts on it what takes effect. -/
theorem Chain.step {x : Step} (h : Chain env secret s.stored) (hcond : StepCondition s x) :
    Chain env secret (step env secret s x).stored ∧ s.stored <+: (step env secret s x).stored ∧
      (TakesEffect env secret s x → ∀ id ∈ x.recorded? env, id ∈ (step env secret s x).stored.map Decision.id) := by
  cases x with
  | load run => exact ⟨h, List.prefix_rfl, fun heffect => heffect.elim⟩
  | record run content =>
    cases hloaded : s.loaded run with
    | none =>
      rw [stored_record_none hloaded]
      refine ⟨h, List.prefix_rfl, ?_⟩
      rintro ⟨graph, stored, hgraph, -⟩
      rw [hloaded] at hgraph
      cases hgraph
    | some graph =>
      have hgraph := hcond graph hloaded
      rw [hgraph] at hloaded
      rw [stored_record hloaded]
      cases hrecord : recordDecision env secret s.stored s.stored content with
      | error e =>
        refine ⟨h, List.prefix_rfl, ?_⟩
        rintro ⟨graph', stored, hgraph', hok⟩
        rw [hloaded] at hgraph'
        cases hgraph'
        rw [hrecord] at hok
        cases hok
      | ok stored =>
        dsimp only
        rcases recordDecision_cases hrecord with ⟨heq, hold⟩ | ⟨heq, hnew⟩
        · rw [heq]
          refine ⟨h, List.prefix_rfl, fun _ id hid => ?_⟩
          rw [← Option.some.inj hid]
          exact hold
        · rw [heq]
          refine ⟨h.record content hnew, List.prefix_append _ _, fun _ id hid => ?_⟩
          rw [← Option.some.inj hid, List.map_append]
          exact List.mem_append_right _ (List.mem_singleton.mpr rfl)

theorem Chain.steps {l : List Step} (h : Chain env secret s.stored) (hcond : RunCondition env secret s l) :
    Chain env secret (steps env secret s l).stored ∧ s.stored <+: (steps env secret s l).stored ∧
      ∀ before x after, l = before ++ x :: after → TakesEffect env secret (steps env secret s before) x →
        ∀ id ∈ x.recorded? env, id ∈ (steps env secret s l).stored.map Decision.id := by
  induction l generalizing s with
  | nil =>
    refine ⟨h, List.prefix_rfl, fun before x after hsplit => ?_⟩
    simp at hsplit
  | cons y l ih =>
    obtain ⟨hchain, hgrows, heffect⟩ := Chain.step h hcond.1
    obtain ⟨hchain', hgrows', heffects⟩ := ih hchain hcond.2
    refine ⟨hchain', hgrows.trans hgrows', fun before x after hsplit htakes id hid => ?_⟩
    cases before with
    | nil =>
      obtain ⟨rfl, rfl⟩ := List.cons.inj hsplit
      exact (hgrows'.map Decision.id).subset (heffect htakes id hid)
    | cons z before =>
      obtain ⟨rfl, hrest⟩ := List.cons.inj hsplit
      exact heffects before x after hrest htakes id hid

/-- A decision on an empty graph. -/
def sampleContent (action : String) : Content := ⟨action, "agent", "reason", 1, "fingerprint", "10:00", .null, trivial⟩

/-- Two runs load the graph before either records. -/
def sampleSteps : List Step := [.load 0, .load 1, .record 0 (sampleContent "observe"), .record 1 (sampleContent "scan")]

def sampleHmac (_ : String) (message : List UInt8) : String := CircuitBreaker.sampleHex message

theorem sampleHmac_valid (secret : String) (message : List UInt8) : RunnerRpc.isHexOfLength 64 (sampleHmac secret message) = true :=
  CircuitBreaker.sampleHex_valid message

theorem sampleStr_str (s : String) : CampaignAudit.sampleStr (.str s) = s := rfl

def sampleAudit : AuditEnv :=
  ⟨⟨CircuitBreaker.sampleHex, CircuitBreaker.sampleHex_valid⟩, sampleHmac, sampleHmac_valid, CampaignAudit.sampleStr, sampleStr_str⟩

theorem sample_verdict : (verifyDecisionAuditChain sampleAudit (.ok none) (steps sampleAudit (.ok none) initial sampleSteps).stored).toOption.map
    SealedChain.Verdict.valid = some false := by
  decide +kernel

/-- The digest of the sample tells two texts apart. -/
example : sampleAudit.sha.hex [111] ≠ sampleAudit.sha.hex [112] := by decide +kernel

end DecisionAudit

end XbowPerso
