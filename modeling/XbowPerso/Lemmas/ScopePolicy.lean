import XbowPerso.ExecutionContract

/-!
# Statements about the scope policy

When the patterns of both lists have normal forms, `is_host_allowed` decides by them alone. A host in lower case without full stops
at the end is its own normal form.
-/

namespace XbowPerso

/-- A traversal succeeds when every element does. -/
theorem mapM_eq_some_iff {α β : Type} {f : α → Option β} {l : List α} {l' : List β} :
    l.mapM f = some l' ↔ List.Forall₂ (fun a b => f a = some b) l l' := by
  induction l generalizing l' with
  | nil =>
    rw [List.mapM_nil, List.forall₂_nil_left_iff]
    exact ⟨fun h => (Option.some.inj h).symm, fun h => congrArg some h.symm⟩
  | cons a l ih =>
    rw [List.mapM_cons, List.forall₂_cons_left_iff]
    constructor
    · intro h
      obtain ⟨b, hb, h⟩ := Option.bind_eq_some_iff.mp h
      obtain ⟨bs, hbs, h⟩ := Option.bind_eq_some_iff.mp h
      exact ⟨b, bs, hb, ih.mp hbs, (Option.some.inj h).symm⟩
    · intro ⟨b, bs, hb, hbs, heq⟩
      rw [hb, ih.mpr hbs, heq]
      rfl

namespace ScopePolicy

variable {u : Unicode} {host : String} {allowed denied : List String}

/-! ## Normal forms of the lists -/

/-- The normal forms of a list of patterns are those of its elements. -/
theorem mem_normal_iff {patterns normals : List String} (h : patterns.mapM (normalizePattern u) = some normals) {n : String} :
    n ∈ normals ↔ ∃ p ∈ patterns, normalizePattern u p = some n := by
  have hpairs := mapM_eq_some_iff.mp h
  clear h
  induction hpairs with
  | nil => simp
  | cons hab _ ih =>
    constructor
    · intro hn
      rcases List.mem_cons.mp hn with rfl | hn
      · exact ⟨_, List.mem_cons_self, hab⟩
      · obtain ⟨p, hp, heq⟩ := ih.mp hn
        exact ⟨p, List.mem_cons_of_mem _ hp, heq⟩
    · intro ⟨p, hp, hn⟩
      rcases List.mem_cons.mp hp with rfl | hp
      · rw [Option.some.inj (hn.symm.trans hab)]
        exact List.mem_cons_self
      · exact List.mem_cons_of_mem _ (ih.mpr ⟨p, hp, hn⟩)

/-- The decision by normal forms: no denied one matches the host and an allowed one does. -/
def decision (host : String) (allowedPatterns deniedPatterns : List String) : Bool :=
  !deniedPatterns.any (hostMatches host) && allowedPatterns.any (hostMatches host)

theorem isHostAllowed_eq_decision {as ds : List String} (hallowed : allowed.mapM (normalizePattern u) = some as)
    (hdenied : denied.mapM (normalizePattern u) = some ds) :
    isHostAllowed u host allowed denied = some (decision (normalizedHost u host) as ds) := by
  unfold isHostAllowed decision
  rw [hdenied, hallowed]
  dsimp only
  by_cases h : ds.any (hostMatches (normalizedHost u host)) = true
  · rw [if_pos h, h]
    rfl
  · rw [if_neg h, Bool.eq_false_iff.mpr h]
    rfl

/-- Lists with the same normal forms make the same decisions. -/
theorem decision_congr {as as' ds ds' : List String} (has : ∀ n, n ∈ as ↔ n ∈ as') (hds : ∀ n, n ∈ ds ↔ n ∈ ds') :
    decision host as ds = decision host as' ds' := by
  have hany : ∀ {l l' : List String}, (∀ n, n ∈ l ↔ n ∈ l') → l.any (hostMatches host) = l'.any (hostMatches host) := by
    intro l l' h
    rw [Bool.eq_iff_iff, List.any_eq_true, List.any_eq_true]
    exact exists_congr fun n => and_congr_left' (h n)
  rw [decision, decision, hany has, hany hds]

/-- A host that is allowed is in scope, and every pattern has a normal form. -/
theorem isHostAllowed_eq_true_iff : isHostAllowed u host allowed denied = some true ↔
    InScope u (normalizedHost u host) allowed denied ∧
      (allowed.mapM (normalizePattern u)).isSome ∧ (denied.mapM (normalizePattern u)).isSome := by
  rcases hdenied : denied.mapM (normalizePattern u) with _ | ds
  · simp [isHostAllowed, hdenied]
  rcases hallowed : allowed.mapM (normalizePattern u) with _ | as
  · simp [isHostAllowed, hdenied, hallowed]
  rw [isHostAllowed_eq_decision hallowed hdenied, Option.some_inj, decision, Bool.and_eq_true, Bool.not_eq_true',
    List.any_eq_true, List.any_eq_false]
  have hin : InScope u (normalizedHost u host) allowed denied ↔
      (∀ n ∈ ds, ¬ hostMatches (normalizedHost u host) n = true) ∧ ∃ n ∈ as, hostMatches (normalizedHost u host) n = true := by
    constructor
    · intro ⟨⟨p, hp, n, hn, hmatch⟩, hno⟩
      refine ⟨fun d hd => ?_, n, (mem_normal_iff hallowed).mpr ⟨p, hp, hn⟩, hmatch⟩
      obtain ⟨q, hq, hqd⟩ := (mem_normal_iff hdenied).mp hd
      rw [hno q hq d hqd]
      exact Bool.false_ne_true
    · intro ⟨hno, n, hn, hmatch⟩
      obtain ⟨p, hp, hpn⟩ := (mem_normal_iff hallowed).mp hn
      refine ⟨⟨p, hp, n, hpn, hmatch⟩, fun q hq d hqd => ?_⟩
      exact Bool.eq_false_iff.mpr (hno d ((mem_normal_iff hdenied).mpr ⟨q, hq, hqd⟩))
  rw [← hin]
  simp

/-! ## Normal texts -/

theorem isPrefix_rstripDots (value : List Char) : rstripDots value <+: value := List.rdropWhile_prefix _ _

theorem mem_of_mem_rstripDots {value : List Char} {c : Char} (h : c ∈ rstripDots value) : c ∈ value :=
  (isPrefix_rstripDots value).subset h

theorem rstripDots_rstripDots (value : List Char) : rstripDots (rstripDots value) = rstripDots value :=
  List.rdropWhile_idempotent _ _

/-- A text in lower case stays in lower case without its full stops at the end. -/
theorem lower_rstripDots_lower (value : List Char) : u.lower (rstripDots (u.lower value)) = rstripDots (u.lower value) :=
  u.lower_of_lowered fun _ hc => u.lowered_of_mem_lower (mem_of_mem_rstripDots hc)

theorem normalizedHost_normal (value : List Char) :
    normalizedHost u (String.ofList (rstripDots (u.lower value))) = String.ofList (rstripDots (u.lower value)) := by
  rw [normalizedHost, String.toList_ofList, lower_rstripDots_lower, rstripDots_rstripDots]

end ScopePolicy

namespace ExecutionContract

open ScopePolicy

variable {u : Unicode} {target : String}

/-- The host of a parsed target is compared with the patterns as it is. -/
theorem parseTarget_normal {t : ParsedTarget} (h : parseTarget u target = some t) : normalizedHost u t.host = t.host := by
  obtain ⟨parsed, -, h⟩ := Option.bind_eq_some_iff.mp h
  obtain ⟨port, -, h⟩ := Option.map_eq_some_iff.mp h
  rw [← h, withoutDots, String.toList_ofList]
  exact normalizedHost_normal _

end ExecutionContract

end XbowPerso
