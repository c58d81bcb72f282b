import Mathlib.Data.List.Dedup
import Mathlib.Data.List.Perm.Subperm
import XbowPerso.OpenApiPreview
import XbowPerso.Theorems.ContractRate

/-!
# What the preview says of authentication and of parameters

A case declares authentication when the effective security requirement is true as a Python value, which is more than asking for a
scheme. Of two parameters with one name and place the one of the path item stays, and names are compared in lower case wherever they
stand. Each time the exact condition under which this makes no difference.
-/

namespace XbowPerso

namespace OpenApiPreview

open AuditSeal (truthy)
open DistinctBy (distinctBy mem_distinctBy mem_of_mem_distinctBy nodup_keys eq_of_key)
open PyText (strip)

variable {env : OpenApiEnv} {η τ : Type} {parts : Parts η τ} {document : Fields}

/-! ## The operations of a document -/

/-- An operation with what it stands in. -/
structure Operation where
  path : String
  pathItem : Fields
  method : String
  fields : Fields

/-- The operations that only read among some fields of a path item. -/
def fieldOperations (env : OpenApiEnv) (path : String) (pathItem : Fields) (fields : Fields) : List Operation :=
  fields.filterMap fun field =>
    match fieldKind env field with
    | .reads method operation => some ⟨path, pathItem, method, operation⟩
    | _ => none

/-- The operations that only read at some paths. -/
def pathOperations (env : OpenApiEnv) (paths : Fields) : List Operation :=
  paths.flatMap fun entry =>
    match entry with
    | (path, .obj pathItem) => if path.toList.head? ≠ some '/' then [] else fieldOperations env path pathItem pathItem
    | _ => []

/-- The operations of a document that the preview makes cases of. -/
def operations (env : OpenApiEnv) (document : Fields) : List Operation :=
  match get document "paths" with
  | .obj paths => pathOperations env (Json.sortFields paths)
  | _ => []

/-- A case is made of an operation. -/
def CaseOf (env : OpenApiEnv) (parts : Parts η τ) (document : Fields) (o : Operation) (made : Case η τ) : Prop :=
  makeCase env parts document o.path o.pathItem o.method o.fields = .ok made

theorem addFields_spec {path : String} {pathItem fields : Fields} {progress result : Progress η τ}
    (h : addFields env parts document path pathItem progress fields = .ok result) :
    ∃ cases, result.cases = progress.cases ++ cases ∧
      List.Forall₂ (CaseOf env parts document) (fieldOperations env path pathItem fields) cases := by
  induction fields generalizing progress with
  | nil =>
    cases h
    exact ⟨[], (List.append_nil _).symm, .nil⟩
  | cons field fields ih =>
    unfold addFields at h
    unfold fieldOperations
    rw [List.filterMap_cons]
    cases hkind : fieldKind env field with
    | other =>
      rw [hkind] at h
      exact ih h
    | writes =>
      rw [hkind] at h
      have hrest := ih h
      exact hrest
    | invalid =>
      rw [hkind] at h
      have hrest := ih h
      exact hrest
    | reads method operation =>
      rw [hkind] at h
      dsimp only at h ⊢
      cases hmade : makeCase env parts document path pathItem method operation with
      | error e =>
        rw [hmade] at h
        cases h
      | ok made =>
        rw [hmade] at h
        dsimp only at h
        split at h
        · cases h
        obtain ⟨cases, hcases, hall⟩ := ih h
        exact ⟨made :: cases, by rw [hcases, List.append_assoc, List.singleton_append], .cons hmade hall⟩

theorem addPaths_spec {paths : Fields} {progress result : Progress η τ}
    (h : addPaths env parts document progress paths = .ok result) :
    ∃ cases, result.cases = progress.cases ++ cases ∧ List.Forall₂ (CaseOf env parts document) (pathOperations env paths) cases := by
  fun_induction addPaths env parts document progress paths with
  | case1 progress =>
    cases h
    exact ⟨[], (List.append_nil _).symm, .nil⟩
  | case2 progress path pathItem rest hhead ih =>
    obtain ⟨cases, hcases, hall⟩ := ih h
    refine ⟨cases, hcases, ?_⟩
    unfold pathOperations
    rw [List.flatMap_cons]
    dsimp only
    rw [if_pos hhead]
    exact hall
  | case3 progress path pathItem rest hhead hlength => cases h
  | case4 progress path pathItem rest hhead hlength e hfields => cases h
  | case5 progress path pathItem rest hhead hlength after hfields ih =>
    obtain ⟨mine, hmine, hforall⟩ := addFields_spec hfields
    obtain ⟨cases, hcases, hall⟩ := ih h
    refine ⟨mine ++ cases, by rw [hcases, hmine, List.append_assoc], ?_⟩
    unfold pathOperations
    rw [List.flatMap_cons]
    dsimp only
    rw [if_neg hhead]
    exact List.rel_append hforall hall
  | case6 progress entry rest hnone ih =>
    obtain ⟨cases, hcases, hall⟩ := ih h
    refine ⟨cases, hcases, ?_⟩
    unfold pathOperations
    rw [List.flatMap_cons]
    split
    · rename_i path pathItem
      exact absurd rfl (hnone path pathItem)
    exact hall

/-- The preview has the cases of the operations, each once. -/
theorem cases_of_build {progress : Progress η τ} (h : buildPreview env parts document = .ok progress) :
    ∃ cases, cases.Perm progress.cases ∧ List.Forall₂ (CaseOf env parts document) (operations env document) cases := by
  unfold buildPreview at h
  split at h
  · cases h
  split at h
  · cases h
  split at h
  · cases h
  split at h
  · rename_i paths hpaths
    have hoperations : operations env document = pathOperations env (Json.sortFields paths) := by rw [operations, hpaths]
    rw [hoperations]
    split at h
    · cases h
    split at h
    · cases h
    rename_i after hafter
    cases h
    obtain ⟨cases, hcases, hall⟩ := addPaths_spec hafter
    refine ⟨cases, ?_, hall⟩
    rw [List.nil_append] at hcases
    dsimp only
    rw [hcases]
    exact (List.perm_insertionSort _ _).symm
  · cases h

/-! ## Authentication -/

/-- An alternative of a security requirement names a scheme. -/
def NamesScheme (alternative : Json) : Prop := ∃ fields, alternative = .obj fields ∧ ∃ f ∈ fields, strip f.1 ≠ ""

/-- A security requirement that cannot be met without a scheme. -/
def RequiresAuthentication (security : Json) : Prop :=
  ∃ alternatives, security = .arr alternatives ∧ alternatives ≠ [] ∧ ∀ a ∈ alternatives, NamesScheme a

/-- A security requirement without an alternative that names no scheme, or with no list at all and false as a Python value. -/
def PlainlyStated (security : Json) : Prop :=
  match security with
  | .arr alternatives => ∀ a ∈ alternatives, NamesScheme a
  | other => truthy other = false

theorem truthy_iff_requires (security : Json) : (truthy security = true ↔ RequiresAuthentication security) ↔ PlainlyStated security := by
  have hother : (∀ alternatives, security ≠ .arr alternatives) → ¬ RequiresAuthentication security :=
    fun hne ⟨alternatives, h, _⟩ => hne alternatives h
  have hfalse : (∀ alternatives, security ≠ .arr alternatives) →
      ((truthy security = true ↔ RequiresAuthentication security) ↔ truthy security = false) := by
    intro hne
    rw [iff_false_intro (hother hne), iff_false, Bool.not_eq_true]
  cases security with
  | arr alternatives =>
    have htruthy : truthy (.arr alternatives) = true ↔ alternatives ≠ [] := by
      cases alternatives <;> simp [truthy]
    rw [htruthy]
    constructor
    · intro h a ha
      obtain ⟨found, heq, -, hall⟩ := h.mp (List.ne_nil_of_mem ha)
      cases heq
      exact hall a ha
    · intro h
      exact ⟨fun hne => ⟨alternatives, rfl, hne, h⟩, fun ⟨found, heq, hne, _⟩ => by cases heq; exact hne⟩
  | null => exact hfalse fun _ h => by cases h
  | bool b => exact hfalse fun _ h => by cases h
  | int n => exact hfalse fun _ h => by cases h
  | float x => exact hfalse fun _ h => by cases h
  | nan => exact hfalse fun _ h => by cases h
  | infinity neg => exact hfalse fun _ h => by cases h
  | str s => exact hfalse fun _ h => by cases h
  | obj fields => exact hfalse fun _ h => by cases h

theorem declared_of_makeCase {path method : String} {pathItem operation : Fields} {made : Case η τ}
    (h : makeCase env parts document path pathItem method operation = .ok made) :
    made.authenticationDeclared = truthy (effectiveSecurity document operation) := by
  unfold makeCase at h
  split at h
  · cases h
  dsimp only at h
  split at h
  · cases h
  split at h
  · cases h
  split at h
  · cases h
  cases h
  rfl

/-- The cases of a preview are those of the operations of its document, and they declare authentication exactly for the operations that
require it when, and only when, every effective requirement is plainly stated. -/
theorem authentication_exact (env : OpenApiEnv) {η τ : Type} (parts : Parts η τ) (document : Fields) (progress : Progress η τ)
    (h : buildPreview env parts document = .ok progress) :
    ∃ cases, cases.Perm progress.cases ∧ List.Forall₂ (CaseOf env parts document) (operations env document) cases ∧
      ((∀ p ∈ (operations env document).zip cases,
          (p.2.authenticationDeclared = true ↔ RequiresAuthentication (effectiveSecurity document p.1.fields))) ↔
        ∀ o ∈ operations env document, PlainlyStated (effectiveSecurity document o.fields)) := by
  obtain ⟨cases, hperm, hall⟩ := cases_of_build h
  refine ⟨cases, hperm, hall, ?_⟩
  have hpair : ∀ p ∈ (operations env document).zip cases,
      ((p.2.authenticationDeclared = true ↔ RequiresAuthentication (effectiveSecurity document p.1.fields)) ↔
        PlainlyStated (effectiveSecurity document p.1.fields)) := by
    intro p hp
    rw [declared_of_makeCase ((List.forall₂_iff_zip.mp hall).2 hp)]
    exact truthy_iff_requires _
  constructor
  · intro hdeclared o ho
    have hlength : (operations env document).length = cases.length := hall.length_eq
    obtain ⟨i, hi, rfl⟩ := List.mem_iff_getElem.mp ho
    have hmem : ((operations env document)[i], cases[i]) ∈ (operations env document).zip cases := by
      refine List.mem_iff_getElem.mpr ⟨i, by rw [List.length_zip]; omega, List.getElem_zip⟩
    exact (hpair _ hmem).mp (hdeclared _ hmem)
  · intro hstated p hp
    exact (hpair p hp).mpr (hstated p.1 (List.of_mem_zip hp).1)

/-! ## Parameters -/

/-- The pair that a parameter is known by: the place and the name, which only headers compare without case. -/
def pairKey (env : OpenApiEnv) (location name : String) : String × String :=
  (location, if location = "header" then lower env name else name)

def Declaration.pair (env : OpenApiEnv) (d : Declaration) : String × String := pairKey env d.location d.name

/-- All declarations that an operation sees, those of its path item first. -/
def allDeclarations (env : OpenApiEnv) (pathItem operation : Fields) : List Declaration :=
  declarations env pathItem ++ declarations env operation

/-- The parameters that are known by a pair. -/
def homonyms (env : OpenApiEnv) (params : List Parameter) (pair : String × String) : List Parameter :=
  params.filter fun p => decide (pairKey env p.location p.name = pair)

/-- The one parameter of a pair is that of a declaration among some. -/
def OneOf (env : OpenApiEnv) (params : List Parameter) (sources : List Declaration) (pair : String × String) : Prop :=
  ∃ d ∈ sources, d.pair env = pair ∧ homonyms env params pair = [d.parameter env]

/-- The override rule: for each pair exactly one parameter, of the operation when it declares the pair and of the path item otherwise, and
none that is declared nowhere. -/
structure Overrides (env : OpenApiEnv) (pathItem operation : Fields) (params : List Parameter) : Prop where
  own : ∀ d ∈ declarations env operation, OneOf env params (declarations env operation) (d.pair env)
  inherited : ∀ d ∈ declarations env pathItem, (∀ o ∈ declarations env operation, o.pair env ≠ d.pair env) →
    OneOf env params (declarations env pathItem) (d.pair env)
  declared : ∀ p ∈ params, ∃ d ∈ allDeclarations env pathItem operation, d.pair env = pairKey env p.location p.name

/-- No two pairs have one key in lower case, and where the operation declares a pair again that the path item has, it gives one of the
parameters that the first of the path item gives. -/
structure HomonymsAgree (env : OpenApiEnv) (pathItem operation : Fields) : Prop where
  separate : ∀ d ∈ allDeclarations env pathItem operation, ∀ e ∈ allDeclarations env pathItem operation,
    d.seenKey env = e.seenKey env → d.pair env = e.pair env
  agree : ∀ d ∈ declarations env operation, ∀ first,
    (declarations env pathItem).find? (fun x => decide (x.pair env = d.pair env)) = some first →
      ∃ e ∈ declarations env operation, e.pair env = d.pair env ∧ e.parameter env = first.parameter env

/-- Declarations that are known by one pair have one key. -/
theorem seenKey_of_pair {d e : Declaration} (h : d.pair env = e.pair env) : d.seenKey env = e.seenKey env := by
  unfold Declaration.pair pairKey at h
  obtain ⟨hlocation, hname⟩ := Prod.ext_iff.mp h
  dsimp only at hlocation hname
  unfold Declaration.seenKey
  rw [hlocation]
  rw [hlocation] at hname
  split at hname
  · rw [hname]
  · rw [hname]

theorem pair_parameter (d : Declaration) : pairKey env (d.parameter env).location (d.parameter env).name = d.pair env := rfl

/-- The loop keeps the first declaration of each key, as far as the bound lets it. -/
theorem normalize_spec {seen : List (String × String)} {normalized params : List Parameter} {l : List Declaration}
    (hroom : normalized.length < maxParameters) (h : normalize env seen normalized l = .ok params) :
    params = normalized ++
      ((distinctBy (Declaration.seenKey env) seen l).take (maxParameters - normalized.length)).map (Declaration.parameter env) := by
  induction l generalizing seen normalized with
  | nil =>
    cases h
    simp [distinctBy]
  | cons d l ih =>
    unfold normalize at h
    split at h
    · cases h
    unfold distinctBy
    split at h
    · rename_i hseen
      rw [if_pos hseen]
      exact ih hroom h
    · rename_i hseen
      rw [if_neg hseen]
      split at h
      · cases h
      dsimp only at h
      have hlength : (normalized ++ [d.parameter env]).length = normalized.length + 1 := List.length_append
      obtain ⟨k, hk⟩ : ∃ k, maxParameters - normalized.length = k + 1 := ⟨_, (Nat.succ_pred_eq_of_pos (Nat.sub_pos_of_lt hroom)).symm⟩
      rw [hk, List.take_succ_cons, List.map_cons]
      split at h
      · rename_i hfull
        cases h
        have hzero : k = 0 := by omega
        rw [hzero, List.take_zero, List.map_nil]
      · rename_i hmore
        rw [ih (Nat.lt_of_not_le hmore) h, List.append_assoc, List.singleton_append, hlength]
        congr 3
        have hk' : maxParameters - (normalized.length + 1) = k := by omega
        rw [hk']

/-- The declarations that the parameters of an operation come from. -/
def kept (env : OpenApiEnv) (pathItem operation : Fields) : List Declaration :=
  distinctBy (Declaration.seenKey env) [] (allDeclarations env pathItem operation)

theorem params_eq {pathItem operation : Fields} {params : List Parameter} (h : normalizedParameters env pathItem operation = .ok params)
    (hfew : ((allDeclarations env pathItem operation).map (Declaration.pair env)).dedup.length ≤ maxParameters) :
    params = (kept env pathItem operation).map (Declaration.parameter env) := by
  have hspec := normalize_spec (show ([] : List Parameter).length < maxParameters by decide) h
  rw [List.nil_append] at hspec
  have hnodup : ((kept env pathItem operation).map (Declaration.pair env)).Nodup := by
    refine (List.nodup_map_iff_inj_on (List.Nodup.of_map _ nodup_keys)).mpr fun d hd e he hpair => ?_
    exact eq_of_key hd he (seenKey_of_pair hpair)
  have hbound : (kept env pathItem operation).length ≤ maxParameters := by
    refine Nat.le_trans ?_ hfew
    have hlength : ((kept env pathItem operation).map (Declaration.pair env)).length = (kept env pathItem operation).length :=
      List.length_map _
    rw [← hlength]
    refine (List.subperm_of_subset hnodup fun pair hpair => ?_).length_le
    obtain ⟨d, hd, rfl⟩ := List.mem_map.mp hpair
    exact List.mem_dedup.mpr (List.mem_map_of_mem (mem_of_mem_distinctBy hd))
  rw [hspec]
  exact congrArg _ (List.take_of_length_le hbound)

/-- A parameter that is kept is the only one of its pair. -/
theorem homonyms_of_kept {pathItem operation : Fields} {k : Declaration} (hk : k ∈ kept env pathItem operation) :
    homonyms env ((kept env pathItem operation).map (Declaration.parameter env)) (k.pair env) = [k.parameter env] := by
  have honly : (kept env pathItem operation).filter (fun d => decide (d.pair env = k.pair env)) = [k] := by
    have hnodup : (kept env pathItem operation).Nodup := List.Nodup.of_map _ nodup_keys
    have hperm : ((kept env pathItem operation).filter fun d => decide (d.pair env = k.pair env)).Perm [k] := by
      refine (List.perm_ext_iff_of_nodup (hnodup.filter _) (List.nodup_singleton k)).mpr fun d => ?_
      rw [List.mem_filter, List.mem_singleton, decide_eq_true_eq]
      constructor
      · rintro ⟨hd, hpair⟩
        exact eq_of_key hd hk (seenKey_of_pair hpair)
      · rintro rfl
        exact ⟨hk, rfl⟩
    exact List.perm_singleton.mp hperm
  unfold homonyms
  rw [List.filter_map]
  have hcomp : ((fun p => decide (pairKey env p.location p.name = k.pair env)) ∘ Declaration.parameter env)
      = fun d => decide (d.pair env = k.pair env) := rfl
  rw [hcomp, honly, List.map_singleton]

/-- A pair with one homonym has a declaration that is kept. -/
theorem kept_of_oneOf {pathItem operation : Fields} {sources : List Declaration} {pair : String × String}
    (h : OneOf env ((kept env pathItem operation).map (Declaration.parameter env)) sources pair) :
    ∃ k ∈ kept env pathItem operation, k.pair env = pair := by
  obtain ⟨d, -, -, hone⟩ := h
  have hmem : d.parameter env ∈ homonyms env ((kept env pathItem operation).map (Declaration.parameter env)) pair := by
    rw [hone]
    exact List.mem_singleton_self _
  obtain ⟨hin, hpair⟩ := List.mem_filter.mp hmem
  obtain ⟨k, hk, heq⟩ := List.mem_map.mp hin
  refine ⟨k, hk, ?_⟩
  rw [← pair_parameter, heq]
  exact of_decide_eq_true hpair

/-- Where the keys separate the pairs, the declaration kept for a pair is the first that has it. -/
theorem kept_of_first {pathItem operation : Fields} {d k : Declaration}
    (hseparate : ∀ d ∈ allDeclarations env pathItem operation, ∀ e ∈ allDeclarations env pathItem operation,
      d.seenKey env = e.seenKey env → d.pair env = e.pair env)
    (hd : d ∈ allDeclarations env pathItem operation)
    (hfirst : (allDeclarations env pathItem operation).find? (fun x => decide (x.pair env = d.pair env)) = some k) :
    k ∈ kept env pathItem operation ∧ k.pair env = d.pair env := by
  have hpair : k.pair env = d.pair env := by simpa using List.find?_some hfirst
  refine ⟨mem_distinctBy.mpr ⟨List.not_mem_nil, ?_⟩, hpair⟩
  rw [← hfirst]
  refine DistinctBy.find?_congr fun x hx => ?_
  have hiff : x.seenKey env = k.seenKey env ↔ x.pair env = d.pair env := by
    constructor
    · intro hkey
      exact hseparate x hx d hd (hkey.trans (seenKey_of_pair hpair))
    · intro h
      exact seenKey_of_pair (h.trans hpair.symm)
  exact decide_eq_decide.mpr hiff

section OverrideRule

variable {pathItem operation : Fields}

/-- What the override rule asks for when each declaration is kept as the loop does it. -/
theorem agree_of_overrides (h : Overrides env pathItem operation ((kept env pathItem operation).map (Declaration.parameter env))) :
    HomonymsAgree env pathItem operation := by
  have hkept : ∀ d ∈ allDeclarations env pathItem operation, ∃ k ∈ kept env pathItem operation, k.pair env = d.pair env := by
    intro d hd
    obtain hpath | hown := List.mem_append.mp hd
    · by_cases hover : ∃ o ∈ declarations env operation, o.pair env = d.pair env
      · obtain ⟨o, ho, hpair⟩ := hover
        obtain ⟨k, hk, hkpair⟩ := kept_of_oneOf (h.own o ho)
        exact ⟨k, hk, hkpair.trans hpair⟩
      · exact kept_of_oneOf (h.inherited d hpath fun o ho hpair => hover ⟨o, ho, hpair⟩)
    · exact kept_of_oneOf (h.own d hown)
  have hseparate : ∀ d ∈ allDeclarations env pathItem operation, ∀ e ∈ allDeclarations env pathItem operation,
      d.seenKey env = e.seenKey env → d.pair env = e.pair env := by
    intro d hd e he hkey
    obtain ⟨k, hk, hkpair⟩ := hkept d hd
    obtain ⟨j, hj, hjpair⟩ := hkept e he
    have hsame : k = j := eq_of_key hk hj ((seenKey_of_pair hkpair).trans (hkey.trans (seenKey_of_pair hjpair).symm))
    rw [← hkpair, ← hjpair, hsame]
  refine ⟨hseparate, fun d hd first hfirst => ?_⟩
  obtain ⟨e, he, hepair, hone⟩ := h.own d hd
  have hall : (allDeclarations env pathItem operation).find? (fun x => decide (x.pair env = d.pair env)) = some first := by
    unfold allDeclarations
    rw [List.find?_append, hfirst, Option.some_or]
  obtain ⟨hk, hkpair⟩ := kept_of_first hseparate (List.mem_append_right _ hd) hall
  have hfirstOne := homonyms_of_kept hk
  rw [hkpair, hone] at hfirstOne
  exact ⟨e, he, hepair, List.singleton_inj.mp hfirstOne⟩

theorem overrides_of_agree (h : HomonymsAgree env pathItem operation) :
    Overrides env pathItem operation ((kept env pathItem operation).map (Declaration.parameter env)) := by
  constructor
  case own =>
    intro d hd
    cases hfirst : (declarations env pathItem).find? (fun x => decide (x.pair env = d.pair env)) with
    | some first =>
      obtain ⟨e, he, hepair, hsame⟩ := h.agree d hd first hfirst
      have hall : (allDeclarations env pathItem operation).find? (fun x => decide (x.pair env = d.pair env)) = some first := by
        unfold allDeclarations
        rw [List.find?_append, hfirst, Option.some_or]
      obtain ⟨hk, hkpair⟩ := kept_of_first h.separate (List.mem_append_right _ hd) hall
      exact ⟨e, he, hepair, by rw [← hkpair, homonyms_of_kept hk, hsame]⟩
    | none =>
      cases hmine : (declarations env operation).find? (fun x => decide (x.pair env = d.pair env)) with
      | none => exact absurd (List.find?_eq_none.mp hmine d hd) (by simp)
      | some k =>
        have hall : (allDeclarations env pathItem operation).find? (fun x => decide (x.pair env = d.pair env)) = some k := by
          unfold allDeclarations
          rw [List.find?_append, hfirst, Option.none_or, hmine]
        obtain ⟨hk, hkpair⟩ := kept_of_first h.separate (List.mem_append_right _ hd) hall
        exact ⟨k, List.mem_of_find?_eq_some hmine, hkpair, by rw [← hkpair, homonyms_of_kept hk]⟩
  case inherited =>
    intro d hd _
    cases hfirst : (declarations env pathItem).find? (fun x => decide (x.pair env = d.pair env)) with
    | none => exact absurd (List.find?_eq_none.mp hfirst d hd) (by simp)
    | some k =>
      have hall : (allDeclarations env pathItem operation).find? (fun x => decide (x.pair env = d.pair env)) = some k := by
        unfold allDeclarations
        rw [List.find?_append, hfirst, Option.some_or]
      obtain ⟨hk, hkpair⟩ := kept_of_first h.separate (List.mem_append_left _ hd) hall
      exact ⟨k, List.mem_of_find?_eq_some hfirst, hkpair, by rw [← hkpair, homonyms_of_kept hk]⟩
  case declared =>
    intro p hp
    obtain ⟨k, hk, rfl⟩ := List.mem_map.mp hp
    exact ⟨k, mem_of_mem_distinctBy hk, rfl⟩

end OverrideRule

/-- With at most 100 pairs, the parameters of an operation follow the override rule when, and only when, its homonyms agree. -/
theorem effective_parameters_exact (env : OpenApiEnv) (pathItem operation : Fields) (params : List Parameter)
    (h : normalizedParameters env pathItem operation = .ok params)
    (hfew : ((allDeclarations env pathItem operation).map (Declaration.pair env)).dedup.length ≤ maxParameters) :
    Overrides env pathItem operation params ↔ HomonymsAgree env pathItem operation := by
  rw [params_eq h hfew]
  exact ⟨agree_of_overrides, overrides_of_agree⟩

/-! ## Samples -/

/-- Texts are `str` of themselves. -/
def sampleStr : Json → String
  | .str s => s
  | _ => ""

theorem sampleStr_str (s : String) : sampleStr (.str s) = s := rfl

/-- An interpreter for the samples: only strings have a text. -/
def sampleEnv : OpenApiEnv := ⟨ExecutionContract.sampleUnicode, sampleStr, sampleStr_str⟩

/-- A query parameter that is required or not. -/
def sampleParameter (required : Bool) : Fields := [("name", .str "a"), ("in", .str "query"), ("required", .bool required)]

/-- What declares one query parameter. -/
def sampleSource (required : Bool) : Fields := [("parameters", .arr [.obj (sampleParameter required)])]

theorem sample_declarations (required : Bool) :
    declarations sampleEnv (sampleSource required) = [⟨"a", "query", sampleParameter required⟩] := by
  have htexts : fieldText sampleEnv (sampleParameter required) "name" = "a" ∧
      lower sampleEnv (fieldText sampleEnv (sampleParameter required) "in") = "query" ∧ "query" ∈ knownLocations := by
    cases required <;> decide +kernel
  obtain ⟨hname, hlocation, hknown⟩ := htexts
  have hitem : declaration? sampleEnv (.obj (sampleParameter required)) = some ⟨"a", "query", sampleParameter required⟩ := by
    unfold declaration?
    dsimp only
    rw [hname, hlocation]
    simp [hknown, get?, sampleParameter]
  unfold declarations
  simp only [get, get?, sampleSource, List.find?_cons, decide_true, Option.map_some, Option.getD_some, List.filterMap_cons, hitem,
    List.filterMap_nil]

theorem sample_kept (inherited own : Bool) :
    normalizedParameters sampleEnv (sampleSource inherited) (sampleSource own) = .ok [⟨"a", "query", inherited, none⟩] := by
  have hparameter : normalizedParameters sampleEnv (sampleSource inherited) (sampleSource own) =
      normalize sampleEnv [] [] [⟨"a", "query", sampleParameter inherited⟩, ⟨"a", "query", sampleParameter own⟩] := by
    unfold normalizedParameters
    rw [sample_declarations, sample_declarations, List.singleton_append]
  rw [hparameter]
  cases inherited <;> cases own <;> decide +kernel

theorem sample_few (inherited own : Bool) :
    ((allDeclarations sampleEnv (sampleSource inherited) (sampleSource own)).map (Declaration.pair sampleEnv)).dedup.length
      ≤ maxParameters := by
  refine Nat.le_trans (List.dedup_sublist _).length_le ?_
  unfold allDeclarations
  rw [sample_declarations, sample_declarations, List.length_map, List.length_append, List.length_singleton, List.length_singleton]
  decide

/-- A parameter that the operation requires is not required, since the path item has it without that. -/
theorem operation_parameter_lost :
    ∃ params, normalizedParameters sampleEnv (sampleSource false) (sampleSource true) = .ok params ∧
      ((allDeclarations sampleEnv (sampleSource false) (sampleSource true)).map (Declaration.pair sampleEnv)).dedup.length ≤ maxParameters ∧
      ¬ Overrides sampleEnv (sampleSource false) (sampleSource true) params := by
  refine ⟨_, sample_kept false true, sample_few false true, fun h => ?_⟩
  obtain ⟨d, hd, -, hone⟩ := h.own ⟨"a", "query", sampleParameter true⟩ (by rw [sample_declarations]; exact List.mem_singleton_self _)
  rw [sample_declarations, List.mem_singleton] at hd
  subst hd
  have hmem := hone ▸ List.mem_singleton_self (Declaration.parameter sampleEnv ⟨"a", "query", sampleParameter true⟩)
  have hin := List.mem_singleton.mp (List.mem_filter.mp hmem).1
  exact absurd (congrArg Parameter.required hin) (by decide)

/-- A parameter that both levels require. -/
theorem effective_parameters_sample :
    Overrides sampleEnv (sampleSource true) (sampleSource true) [⟨"a", "query", true, none⟩] := by
  refine (effective_parameters_exact sampleEnv _ _ _ (sample_kept true true) (sample_few true true)).mpr ⟨?_, ?_⟩
  · intro d hd e he _
    unfold allDeclarations at hd he
    simp only [sample_declarations, List.mem_append, List.mem_singleton, or_self] at hd he
    rw [hd, he]
  · intro d hd first hfirst
    have hin := List.mem_of_find?_eq_some hfirst
    rw [sample_declarations] at hd hin
    exact ⟨d, by rw [sample_declarations]; exact hd, rfl, by rw [List.mem_singleton.mp hd, List.mem_singleton.mp hin]⟩

/-- Cases without other parts. -/
def sampleParts : Parts Unit Unit := ⟨fun _ => .ok (), fun _ _ _ _ _ => .ok (), fun _ => 0⟩

/-- An operation with these alternatives of its security requirement. -/
def sampleOperation (alternatives : List Json) : Fields := [("security", .arr alternatives)]

/-- A document of one operation. -/
def sampleDocument (alternatives : List Json) : Fields :=
  [("openapi", .str "3"), ("paths", .obj [("/a", .obj [("get", .obj (sampleOperation alternatives))])])]

/-- What the cases of a preview declare. -/
def declaredOf (preview : Except PyError (Progress Unit Unit)) : Option (List Bool) :=
  preview.toOption.map fun progress => progress.cases.map Case.authenticationDeclared

theorem declared_sample :
    declaredOf (buildPreview sampleEnv sampleParts (sampleDocument [.obj []])) = some [true] ∧
      declaredOf (buildPreview sampleEnv sampleParts (sampleDocument [.obj [("k", .arr [])]])) = some [true] := by
  refine ⟨?_, ?_⟩
  · decide +kernel
  · decide +kernel

theorem progress_of_declared {preview : Except PyError (Progress Unit Unit)} {declared : List Bool}
    (h : declaredOf preview = some declared) :
    ∃ progress, preview = .ok progress ∧ progress.cases.map Case.authenticationDeclared = declared := by
  cases preview with
  | error e => cases h
  | ok progress => exact ⟨progress, rfl, Option.some.inj h⟩

/-- An operation that can be called without a scheme is declared to require authentication. -/
theorem optional_authentication_overstated :
    ∃ progress, buildPreview sampleEnv sampleParts (sampleDocument [.obj []]) = .ok progress ∧
      (∀ made ∈ progress.cases, made.authenticationDeclared = true) ∧ progress.cases.length = 1 ∧
      ¬ RequiresAuthentication (effectiveSecurity (sampleDocument [.obj []]) (sampleOperation [.obj []])) := by
  obtain ⟨progress, hprogress, hdeclared⟩ := progress_of_declared declared_sample.1
  refine ⟨progress, hprogress, ?_, ?_, ?_⟩
  · intro made hmade
    exact List.mem_singleton.mp (hdeclared ▸ List.mem_map_of_mem hmade)
  · rw [← List.length_map Case.authenticationDeclared, hdeclared, List.length_singleton]
  · rintro ⟨alternatives, heq, -, hall⟩
    cases heq
    obtain ⟨fields, hfields, f, hf, -⟩ := hall _ (List.mem_singleton_self _)
    cases hfields
    cases hf

theorem authentication_exact_sample :
    ∃ progress, buildPreview sampleEnv sampleParts (sampleDocument [.obj [("k", .arr [])]]) = .ok progress ∧
      ∃ cases, cases.Perm progress.cases ∧
        ((∀ p ∈ (operations sampleEnv (sampleDocument [.obj [("k", .arr [])]])).zip cases, (p.2.authenticationDeclared = true ↔
            RequiresAuthentication (effectiveSecurity (sampleDocument [.obj [("k", .arr [])]]) p.1.fields))) ↔
          ∀ o ∈ operations sampleEnv (sampleDocument [.obj [("k", .arr [])]]),
            PlainlyStated (effectiveSecurity (sampleDocument [.obj [("k", .arr [])]]) o.fields)) := by
  obtain ⟨progress, hprogress, -⟩ := progress_of_declared declared_sample.2
  obtain ⟨cases, hperm, -, hiff⟩ := authentication_exact sampleEnv sampleParts _ progress hprogress
  exact ⟨progress, hprogress, cases, hperm, hiff⟩

end OpenApiPreview

end XbowPerso
