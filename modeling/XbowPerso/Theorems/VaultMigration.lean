import XbowPerso.VaultMigration
import XbowPerso.Theorems.ContractRate
import XbowPerso.Theorems.VaultReadBack

/-!
# What the rewriting of an environment file keeps

The lines that `rewrite_env_file` drops are assignments, and the vault holds what a dropped line assigned, under the name that the
migration gives it. The settings of the vault itself are dropped without that, to be set anew.
-/

namespace XbowPerso

namespace VaultMigration

open PyText (isPySpace stripChars)
open SecretVault (Content getSecret)

/-! ## The lines that are dropped -/

variable {text : Text}

variable {c : Char}

theorem mem_lstrip (hc : isPySpace c = false) (h : c ∈ text) : c ∈ lstrip text := by
  rw [← List.takeWhile_append_dropWhile (p := isPySpace) (l := text)] at h
  rcases List.mem_append.mp h with h | h
  · have htrue := List.mem_takeWhile_imp h
    rw [hc] at htrue
    cases htrue
  · exact h

theorem lstrip_stripChars (text : Text) : lstrip (stripChars text) = stripChars text :=
  PyText.dropWhile_rdropWhile _ _ (List.dropWhile_idempotent _ _)

theorem removePrefix_of_not {start : Text} (h : start.isPrefixOf text = false) : removePrefix start text = text := by
  rw [removePrefix, if_neg (by rw [h]; exact Bool.false_ne_true)]

/-- What follows the word `export` holds every equals sign of the line. -/
theorem mem_removePrefix_export (h : '=' ∈ text) : '=' ∈ removePrefix exportPrefix text := by
  unfold removePrefix
  split
  · rename_i hprefix
    obtain ⟨rest, rfl⟩ := List.isPrefixOf_iff_prefix.mp hprefix
    rw [List.drop_left]
    rcases List.mem_append.mp h with h | h
    · exact absurd h (by decide)
    · exact h
  · exact h

/-- A line that is dropped is an assignment to one of the names, or to a browser secret. -/
theorem assignment_of_not_kept {names : List Text} {line : Text} (h : isKept names line = false) :
    ∃ name raw, assignment? line = some (name, raw) ∧ (name ∈ names ∨ browserPrefix.isPrefixOf name = true) := by
  simp only [isKept] at h
  split at h
  · cases h
  rename_i hline
  push Not at hline
  obtain ⟨hne, hcomment, heq⟩ := hline
  have hcandidate : (if exportPrefix.isPrefixOf (stripChars line) then lstrip (removePrefix exportPrefix (stripChars line))
      else stripChars line) = lstrip (removePrefix exportPrefix (stripChars line)) := by
    split
    · rfl
    · rename_i hprefix
      rw [removePrefix_of_not (Bool.eq_false_iff.mpr hprefix), lstrip_stripChars]
  have hmem : '=' ∈ lstrip (removePrefix exportPrefix (stripChars line)) :=
    mem_lstrip (by decide) (mem_removePrefix_export heq)
  have hcode : ¬ (stripChars line = [] ∨ (stripChars line).head? = some '#') := by
    rintro (h | h)
    · exact hne h
    · exact hcomment h
  have hassign : assignment? line =
      some (stripChars ((lstrip (removePrefix exportPrefix (stripChars line))).takeWhile (· ≠ '=')),
        ((lstrip (removePrefix exportPrefix (stripChars line))).dropWhile (· ≠ '=')).tail) := by
    simp only [assignment?]
    rw [if_neg hcode, hcandidate, if_pos hmem]
  rw [Bool.not_eq_false', Bool.or_eq_true, decide_eq_true_eq] at h
  exact ⟨_, _, hassign, h⟩

/-! ## The environment -/

/-- A name that the file may assign. -/
def ValidName (name : Text) : Prop := ∀ c ∈ name, c ∈ envNameChars

variable {name value : Text}

/-- Setting a key to the value that it has, or that it lacks, changes no other value. -/
theorem get?_set_of_get? {values : Dict Text Text} (hset : ∀ v, values.get? name = some v → v = value)
    {k v : Text} (hk : values.get? k = some v) : (values.set name value).get? k = some v := by
  rw [Dict.get?_set]
  split
  · rename_i hname
    rw [hset v (hname ▸ hk)]
  · exact hk

/-- An assignment that is taken agrees with an earlier one of its name. -/
theorem agrees_of_ok {α : Type} {values : Dict Text Text} {name value : Text} {message : String} {next : Except PyError α} {out : α}
    (h : (match values.get? name with
      | some existing => if existing ≠ value then migrationError message else next
      | none => next) = .ok out) : (∀ v, values.get? name = some v → v = value) ∧ next = .ok out := by
  split at h
  · rename_i existing hexisting
    split at h
    · cases h
    rename_i hsame
    rw [not_not] at hsame
    refine ⟨fun v hv => ?_, h⟩
    rw [hexisting] at hv
    cases hv
    exact hsame
  · rename_i hnone
    refine ⟨fun v hv => ?_, h⟩
    rw [hnone] at hv
    cases hv

/-- The loop over the lines keeps what it has, finds every relevant assignment, and adds valid names only. -/
theorem sourceLines_spec {lines : List Text} : ∀ {values out : Dict Text Text} {n : Nat}, sourceLines values n lines = .ok out →
    (∀ k v, values.get? k = some v → out.get? k = some v) ∧
    (∀ line ∈ lines, ∀ name raw, assignment? line = some (name, raw) → isRelevant name = true →
      out.get? name = some (decodeEnvValue raw) ∧ ValidName name) ∧
    (∀ k v, out.get? k = some v → values.get? k = some v ∨ ValidName k) := by
  induction lines with
  | nil =>
    intro values out n h
    cases h
    exact ⟨fun _ _ h => h, fun _ h => absurd h List.not_mem_nil, fun _ _ h => .inl h⟩
  | cons line lines ih =>
    intro values out n h
    rw [sourceLines] at h
    -- a line that assigns nothing relevant is passed over
    have hskip (hrest : sourceLines values (n + 1) lines = .ok out)
        (hline : ∀ name raw, assignment? line = some (name, raw) → isRelevant name = false) :
        (∀ k v, values.get? k = some v → out.get? k = some v) ∧
        (∀ l ∈ line :: lines, ∀ name raw, assignment? l = some (name, raw) → isRelevant name = true →
          out.get? name = some (decodeEnvValue raw) ∧ ValidName name) ∧
        (∀ k v, out.get? k = some v → values.get? k = some v ∨ ValidName k) := by
      obtain ⟨hkeep, hfind, hadd⟩ := ih hrest
      refine ⟨hkeep, fun l hl name raw hassign hrelevant => ?_, hadd⟩
      rcases List.mem_cons.mp hl with rfl | hl
      · rw [hline name raw hassign] at hrelevant
        cases hrelevant
      · exact hfind l hl name raw hassign hrelevant
    split at h
    · rename_i hnone
      exact hskip h fun name raw hassign => by rw [hnone] at hassign; cases hassign
    · rename_i name raw hassign
      split at h
      · rename_i hrelevant
        split at h
        · cases h
        rename_i hvalid
        rw [not_or, Bool.not_eq_true, List.any_eq_false] at hvalid
        have hname : ValidName name := fun c hc => by
          have := hvalid.2 c hc
          rwa [decide_eq_true_eq, not_not] at this
        have hset := agrees_of_ok h
        obtain ⟨hkeep, hfind, hadd⟩ := ih hset.2
        refine ⟨fun k v hk => hkeep k v (get?_set_of_get? hset.1 hk), fun l hl name' raw' hassign' hrelevant' => ?_,
          fun k v hk => ?_⟩
        · rcases List.mem_cons.mp hl with rfl | hl
          · rw [hassign] at hassign'
            cases hassign'
            exact ⟨hkeep name _ Dict.get?_set_self, hname⟩
          · exact hfind l hl name' raw' hassign' hrelevant'
        · rcases hadd k v hk with hk | hk
          · rw [Dict.get?_set] at hk
            split at hk
            · rename_i heq
              exact .inr (heq ▸ hname)
            · exact .inl hk
          · exact .inr hk
      · rename_i hrelevant
        refine hskip h fun name' raw' hassign' => ?_
        rw [hassign] at hassign'
        cases hassign'
        exact Bool.eq_false_iff.mpr hrelevant

/-- The merge keeps the values of the file, and what it adds is the process environment's. -/
theorem mergeProcess_spec {entries : List (Text × Text)} : ∀ {values out : Dict Text Text},
    mergeProcess values entries = .ok out →
    (∀ k v, values.get? k = some v → out.get? k = some v) ∧
    (∀ k v, out.get? k = some v → values.get? k = some v ∨ (k, v) ∈ entries) := by
  induction entries with
  | nil =>
    intro values out h
    cases h
    exact ⟨fun _ _ h => h, fun _ _ h => .inl h⟩
  | cons entry entries ih =>
    obtain ⟨name, value⟩ := entry
    intro values out h
    rw [mergeProcess] at h
    split at h
    · obtain ⟨hkeep, hadd⟩ := ih h
      refine ⟨hkeep, fun k v hk => ?_⟩
      rcases hadd k v hk with hk | hk
      · exact .inl hk
      · exact .inr (List.mem_cons_of_mem _ hk)
    · have hset := agrees_of_ok h
      obtain ⟨hkeep, hadd⟩ := ih hset.2
      refine ⟨fun k v hk => hkeep k v (get?_set_of_get? hset.1 hk), fun k v hk => ?_⟩
      rcases hadd k v hk with hk | hk
      · rw [Dict.get?_set] at hk
        split at hk
        · rename_i heq
          cases hk
          rw [heq]
          exact .inr List.mem_cons_self
        · exact .inl hk
      · exact .inr (List.mem_cons_of_mem _ hk)

/-! ## The sources -/

variable {u : Unicode} {aes : AesGcm} {key : List UInt8} {vault : Option Content} {s : Surroundings}

/-- Where an entry of the sources comes from. -/
inductive Origin (u : Unicode) (s : Surroundings) (env : Dict Text Text) : String → Text → Text → Prop
  | inlineApi : Origin u s env "api_token" "XBOW_API_TOKEN".toList (strippedValue env "XBOW_API_TOKEN")
  | apiFile (value : Text) (h : safeSecretFile s (strippedValue env "XBOW_API_TOKEN_FILE") = .ok value) :
      Origin u s env "api_token" "XBOW_API_TOKEN_FILE".toList value
  | static (name envName : String) (value : Text) (hm : (name, envName) ∈ staticMappings)
      (h : env.get? envName.toList = some value) : Origin u s env name envName.toList value
  | browser (envName value : Text) (hp : browserPrefix.isPrefixOf envName = true) (h : env.get? envName = some value) :
      Origin u s env (browserKey u envName) envName value

/-- Every entry has an origin. -/
def Traced (u : Unicode) (s : Surroundings) (env : Dict Text Text) (sources : Sources) : Prop :=
  ∀ name source value, sources.get? name = some (source, value) → Origin u s env name source value

variable {env : Dict Text Text}

variable {sources : Sources} {source : Text}

theorem Traced.set (h : Traced u s env sources) {name : String}
    (ho : Origin u s env name source value) : Traced u s env (sources.set name (source, value)) := by
  intro name' source' value' hget
  rw [Dict.get?_set] at hget
  split at hget
  · rename_i hname
    cases hget
    exact hname ▸ ho
  · exact h name' source' value' hget

theorem traced_empty (env : Dict Text Text) : Traced u s env .empty := fun _ _ _ h => (by cases h)

theorem apiTokenSource_traced {result : Sources} (h : apiTokenSource s env = .ok result) :
    Traced u s env result := by
  simp only [apiTokenSource] at h
  split at h
  · cases h
  split at h
  · cases h
    exact (traced_empty env).set .inlineApi
  split at h
  · split at h
    · cases h
    rename_i value hfile
    cases h
    exact (traced_empty env).set (.apiFile value hfile)
  · cases h
    exact traced_empty env

theorem foldl_addStatic_traced {mappings : List (String × String)}
    (hm : ∀ m ∈ mappings, m ∈ staticMappings) {result : Sources} (h : Traced u s env result) :
    Traced u s env (mappings.foldl (addStatic env) result) := by
  induction mappings generalizing result with
  | nil => exact h
  | cons m mappings ih =>
    refine ih (fun m' hm' => hm m' (List.mem_cons_of_mem m hm')) ?_
    unfold addStatic
    split
    · exact h
    rename_i value hvalue
    split
    · exact h
    exact h.set (.static m.1 m.2 value (hm m List.mem_cons_self) hvalue)

/-- The loop over the browser secrets: every entry stays traced, and every secret with a value has its key set by one of them. -/
theorem addBrowser_spec {entries : List (Text × Text)} :
    ∀ {result sources : Sources}, (∀ e ∈ entries, env.get? e.1 = some e.2) → Traced u s env result →
      addBrowser u result entries = .ok sources →
      Traced u s env sources ∧
      (∀ name, (∃ envName value, result.get? name = some (envName, value) ∧ browserPrefix.isPrefixOf envName = true) →
        ∃ envName value, sources.get? name = some (envName, value) ∧ browserPrefix.isPrefixOf envName = true) ∧
      (∀ e ∈ entries, browserPrefix.isPrefixOf e.1 = true → e.2 ≠ [] →
        ∃ envName value, sources.get? (browserKey u e.1) = some (envName, value) ∧ browserPrefix.isPrefixOf envName = true) := by
  induction entries with
  | nil =>
    intro result sources _ ht h
    cases h
    exact ⟨ht, fun _ h => h, fun _ h => absurd h List.not_mem_nil⟩
  | cons e entries ih =>
    obtain ⟨name, value⟩ := e
    intro result sources henv ht h
    have hrest : ∀ e ∈ entries, env.get? e.1 = some e.2 := fun e he => henv e (List.mem_cons_of_mem _ he)
    rw [addBrowser] at h
    split at h
    · rename_i hskip
      obtain ⟨htraced, hkeep, hset⟩ := ih hrest ht h
      refine ⟨htraced, hkeep, fun e he hp hv => ?_⟩
      rcases List.mem_cons.mp he with rfl | he
      · rcases hskip with hskip | hskip
        · rw [hp] at hskip
          cases hskip
        · exact absurd hskip hv
      · exact hset e he hp hv
    · rename_i hbrowser
      rw [not_or, Bool.not_eq_false] at hbrowser
      split at h
      · cases h
      have hvalue : env.get? name = some value := henv (name, value) List.mem_cons_self
      obtain ⟨htraced, hkeep, hset⟩ := ih hrest (ht.set (.browser name value hbrowser.1 hvalue)) h
      refine ⟨htraced, fun k hk => ?_, fun e he hp hv => ?_⟩
      · obtain ⟨envName, v, hget, hprefix⟩ := hk
        refine hkeep k ?_
        rw [Dict.get?_set]
        split
        · exact ⟨name, value, rfl, hbrowser.1⟩
        · exact ⟨envName, v, hget, hprefix⟩
      · rcases List.mem_cons.mp he with rfl | he
        · exact hkeep _ ⟨name, value, Dict.get?_set_self, hbrowser.1⟩
        · exact hset e he hp hv

variable {path : Text}

/-- The sources: each is traced, and every browser secret with a value has its key set by a browser secret. -/
theorem legacySources_spec (h : legacySources u s path = .ok sources) :
    ∃ env, mergedSourceEnvironment s path = .ok env ∧ Traced u s env sources ∧
      ∀ name value, env.get? name = some value → browserPrefix.isPrefixOf name = true → value ≠ [] →
        ∃ envName v, sources.get? (browserKey u name) = some (envName, v) ∧ browserPrefix.isPrefixOf envName = true := by
  unfold legacySources at h
  split at h
  · cases h
  rename_i env henv
  split at h
  · cases h
  rename_i result hresult
  have hstatic := foldl_addStatic_traced (fun _ h => h) (apiTokenSource_traced (u := u) hresult)
  obtain ⟨htraced, -, hset⟩ := addBrowser_spec (fun e he => Dict.mem_entries.mp he) hstatic h
  exact ⟨env, henv, htraced, fun name value hv hp hne => hset (name, value) (Dict.mem_entries.mpr hv) hp hne⟩

/-- The vault holds a value under a name. -/
def Stored (aes : AesGcm) (key : List UInt8) (vault : Option Content) (name : String) (value : Text) : Prop :=
  getSecret aes key vault name = .ok (String.ofList value)

theorem stored_of_verifySources {entries : List (String × Text × Text)} (h : verifySources aes key vault entries = .ok ()) :
    ∀ e ∈ entries, Stored aes key vault e.1 e.2.2 := by
  induction entries with
  | nil => exact fun _ h => absurd h List.not_mem_nil
  | cons e entries ih =>
    obtain ⟨name, source, value⟩ := e
    rw [verifySources] at h
    split at h
    · cases h
    · rename_i hmatch
      intro e he
      rcases List.mem_cons.mp he with rfl | he
      · unfold existingMatches at hmatch
        split at hmatch
        · rename_i current hcurrent
          injection hmatch with hmatch
          injection hmatch with hmatch
          rw [decide_eq_true_eq] at hmatch
          rw [Stored, hcurrent, hmatch]
        · cases hmatch
        · cases hmatch
      · exact ih h e he
    · cases h

/-! ## Names in the vault -/

theorem stripChars_of_no_space (h : ∀ c ∈ text, isPySpace c = false) : stripChars text = text := by
  have hfront : text.dropWhile isPySpace = text :=
    List.dropWhile_eq_self_iff.mpr fun hl => by rw [h _ (List.getElem_mem hl)]; exact Bool.false_ne_true
  have hback : text.rdropWhile isPySpace = text :=
    List.rdropWhile_eq_self_iff.mpr fun hl => by rw [h _ (List.getLast_mem hl)]; exact Bool.false_ne_true
  rw [stripChars, hfront, hback]

theorem envNameChars_facts : envNameChars.all (fun c =>
    !isPySpace c && decide (c.toNat < 128) && decide (c.toLower.toUpper = c)) = true := by decide +kernel

theorem facts_of_mem (h : c ∈ envNameChars) : isPySpace c = false ∧ c.toNat < 128 ∧ c.toLower.toUpper = c := by
  have hc := List.all_eq_true.mp envNameChars_facts c h
  rw [Bool.and_eq_true, Bool.and_eq_true, Bool.not_eq_true', decide_eq_true_eq, decide_eq_true_eq] at hc
  exact ⟨hc.1.1, hc.1.2, hc.2⟩

/-- The suffix of a valid browser name, in capitals, is what follows the prefix. -/
theorem upper_browserSuffix {rest : Text} (hname : name = browserPrefix ++ rest) (hvalid : ValidName name) :
    (browserSuffix u name).map Char.toUpper = rest := by
  have hrest : ∀ c ∈ rest, c ∈ envNameChars := fun c hc => hvalid c (hname ▸ List.mem_append_right _ hc)
  have hprefix : browserPrefix.isPrefixOf name = true := List.isPrefixOf_iff_prefix.mpr ⟨rest, hname.symm⟩
  rw [browserSuffix, removePrefix, if_pos hprefix, hname, List.drop_left,
    stripChars_of_no_space fun c hc => (facts_of_mem (hrest c hc)).1,
    u.lower_ascii fun c hc => (facts_of_mem (hrest c hc)).2.1, List.map_map]
  exact (List.map_congr_left fun c hc => (facts_of_mem (hrest c hc)).2.2).trans (List.map_id rest)

theorem browserSuffix_of_browserKey {name' : Text} (h : browserKey u name = browserKey u name') :
    browserSuffix u name = browserSuffix u name' := by
  have hchars := congrArg String.toList h
  rw [browserKey, browserKey, String.toList_append, String.toList_append, List.append_cancel_left_eq, String.toList_ofList,
    String.toList_ofList] at hchars
  exact hchars

/-- Two valid browser names have different keys in the vault. -/
theorem eq_of_browserKey {name' : Text} (hp : browserPrefix.isPrefixOf name = true)
    (hp' : browserPrefix.isPrefixOf name' = true) (hvalid : ValidName name) (hvalid' : ValidName name')
    (h : browserKey u name = browserKey u name') : name = name' := by
  obtain ⟨rest, hrest⟩ := List.isPrefixOf_iff_prefix.mp hp
  obtain ⟨rest', hrest'⟩ := List.isPrefixOf_iff_prefix.mp hp'
  have hsuffix := congrArg (List.map Char.toUpper) (browserSuffix_of_browserKey h)
  rw [upper_browserSuffix hrest.symm hvalid, upper_browserSuffix hrest'.symm hvalid'] at hsuffix
  rw [← hrest, ← hrest', hsuffix]

theorem static_not_browser : staticMappings.all (fun m => !browserPrefix.isPrefixOf m.2.toList) = true := by decide +kernel

/-- An entry whose source is a browser secret stands under its key. -/
theorem Origin.of_browser {name : String} (h : Origin u s env name source value)
    (hp : browserPrefix.isPrefixOf source = true) : name = browserKey u source ∧ env.get? source = some value := by
  cases h with
  | inlineApi => cases hp
  | apiFile value h => cases hp
  | static name envName value hm h =>
    have hnot := List.all_eq_true.mp static_not_browser _ hm
    rw [hp] at hnot
    cases hnot
  | browser envName value hp h => exact ⟨rfl, h⟩

theorem Origin.relevant {name : String} (h : Origin u s env name source value) :
    isRelevant source = true := by
  have hstatic : ∀ source, source ∈ relevantStaticEnv → isRelevant source = true := by
    intro source hmem
    rw [isRelevant, decide_eq_true hmem, Bool.true_or]
  cases h with
  | inlineApi => exact hstatic _ List.mem_cons_self
  | apiFile value h => exact hstatic _ (List.mem_cons_of_mem _ List.mem_cons_self)
  | static name envName value hm h =>
    have hmem : envName.toList ∈ staticMappings.map fun m => m.2.toList := List.mem_map_of_mem (f := fun m => m.2.toList) hm
    exact hstatic _ (List.mem_cons_of_mem _ (List.mem_cons_of_mem _ hmem))
  | browser envName value hp h => rw [isRelevant, hp, Bool.or_true]

/-! ## The rewritten file -/

/-- What becomes of a dropped assignment: it sets up the vault, or assigns nothing, or the vault holds its value, which is stripped
for the API token and read from the named file for the file of that token; or it is a browser secret and the process environment
has another one of the same name in the vault. -/
inductive Accounted (u : Unicode) (aes : AesGcm) (key : List UInt8) (vault : Option Content) (s : Surroundings)
    (name value : Text) : Prop
  | setting (h : name ∈ vaultSettings)
  | blank (h : value = [])
  | inlineApi (hn : name = "XBOW_API_TOKEN".toList) (h : Stored aes key vault "api_token" (stripChars value))
  | apiFile (hn : name = "XBOW_API_TOKEN_FILE".toList) (secret : Text) (hf : safeSecretFile s (stripChars value) = .ok secret)
      (h : Stored aes key vault "api_token" secret)
  | static (vaultName envName : String) (hm : (vaultName, envName) ∈ staticMappings) (hn : name = envName.toList)
      (h : Stored aes key vault vaultName value)
  | browser (hp : browserPrefix.isPrefixOf name = true) (h : Stored aes key vault (browserKey u name) value)
  | shadowed (hp : browserPrefix.isPrefixOf name = true) (other : Text) (ho : other ∈ s.environ.keys) (hne : other ≠ name)
      (hkey : browserKey u other = browserKey u name)

theorem strippedValue_of_get? {name : String} (h : env.get? name.toList = some value) :
    strippedValue env name = stripChars value := by
  rw [strippedValue, h, Option.getD_some]

/-- An assignment whose name is the source of an entry. -/
theorem Origin.accounted {vaultName : String} {stored : Text}
    (h : Origin u s env vaultName name stored) (hstored : Stored aes key vault vaultName stored)
    (hget : env.get? name = some value) : Accounted u aes key vault s name value := by
  cases h with
  | inlineApi =>
    rw [strippedValue_of_get? hget] at hstored
    exact .inlineApi rfl hstored
  | apiFile secret hf =>
    rw [strippedValue_of_get? hget] at hf
    exact .apiFile rfl stored hf hstored
  | static vaultName envName _ hm h =>
    rw [hget] at h
    cases h
    exact .static vaultName envName hm rfl hstored
  | browser envName _ hp h =>
    rw [hget] at h
    cases h
    exact .browser hp hstored

variable {original : Text}

/-- The merged environment of a file: what a line assigns, and which of its names the process brought. -/
theorem mergedSourceEnvironment_spec
    (hread : readChecked s path (fun _ => true) = some original) (h : mergedSourceEnvironment s path = .ok env) (hpath : path ≠ []) :
    (∀ line ∈ splitlines original, ∀ name raw, assignment? line = some (name, raw) → isRelevant name = true →
      env.get? name = some (decodeEnvValue raw) ∧ ValidName name) ∧
    (∀ name value, env.get? name = some value → ValidName name ∨ name ∈ s.environ.keys) := by
  rw [mergedSourceEnvironment, if_neg hpath] at h
  split at h
  · cases h
  rename_i values hvalues
  unfold sourceEnvFile at hvalues
  split at hvalues
  · cases hvalues
  rename_i text htext
  -- both functions read the same text
  have hsame : text = original := by
    unfold readChecked at hread htext
    split at hread
    · cases hread
    rename_i hlink
    rw [if_neg hlink, Option.bind_eq_some_iff] at htext
    rw [Option.bind_eq_some_iff] at hread
    obtain ⟨file, hfile, hfiletext⟩ := htext
    obtain ⟨file', hfile', hfiletext'⟩ := hread
    rw [hfile] at hfile'
    cases hfile'
    split at hfiletext
    · rw [if_pos rfl, hfiletext] at hfiletext'
      exact Option.some.inj hfiletext'
    · cases hfiletext
  subst hsame
  obtain ⟨-, hfind, hadd⟩ := sourceLines_spec hvalues
  obtain ⟨hkeep, hmerge⟩ := mergeProcess_spec h
  refine ⟨fun line hline name raw hassign hrelevant => ?_, fun name value hget => ?_⟩
  · obtain ⟨hget, hvalid⟩ := hfind line hline name raw hassign hrelevant
    exact ⟨hkeep name _ hget, hvalid⟩
  rcases hmerge name value hget with hget | hmem
  · rcases hadd name value hget with hnone | hvalid
    · cases hnone
    · exact .inl hvalid
  · exact .inr (Dict.mem_keys.mpr ⟨value, hmem⟩)

theorem ne_nil_of_readChecked {check : RegularFile → Bool}
    (h : readChecked s path check = some original) : path ≠ [] := by
  rintro rfl
  unfold readChecked at h
  split at h
  · cases h
  rw [s.current] at h
  cases h

/-- A dropped line is accounted for. -/
theorem accounted_of_dropped {line : Text} (hpath : path ≠ [])
    (hread : readChecked s path (fun _ => true) = some original) (hsources : legacySources u s path = .ok sources)
    (hverified : verifySources aes key vault sources.entries = .ok ()) (hline : line ∈ splitlines original)
    (hdropped : isKept (sources.entries.map (fun e => e.2.1) ++ vaultSettings) line = false) :
    ∃ name raw, assignment? line = some (name, raw) ∧ Accounted u aes key vault s name (decodeEnvValue raw) := by
  obtain ⟨env, henv, htraced, hbrowser⟩ := legacySources_spec hsources
  obtain ⟨hfind, hnames⟩ := mergedSourceEnvironment_spec hread henv hpath
  have hstored : ∀ name source value, sources.get? name = some (source, value) → Stored aes key vault name value :=
    fun name source value hget => stored_of_verifySources hverified _ (Dict.mem_entries.mpr hget)
  obtain ⟨name, raw, hassign, hwhy⟩ := assignment_of_not_kept hdropped
  refine ⟨name, raw, hassign, ?_⟩
  -- a browser secret is stored under its key, or another one is
  have hsecret (hp : browserPrefix.isPrefixOf name = true) : Accounted u aes key vault s name (decodeEnvValue raw) := by
    obtain ⟨hget, hvalid⟩ := hfind line hline name raw hassign (by rw [isRelevant, hp, Bool.or_true])
    by_cases hblank : decodeEnvValue raw = []
    · exact .blank hblank
    · obtain ⟨envName, value, hentry, hp'⟩ := hbrowser name _ hget hp hblank
      obtain ⟨hkey, hvalue⟩ := (htraced _ _ _ hentry).of_browser hp'
      by_cases hsame : envName = name
      · subst hsame
        rw [hget] at hvalue
        cases hvalue
        exact .browser hp (hstored _ _ _ hentry)
      · rcases hnames envName _ hvalue with hvalid' | hprocess
        · exact absurd (eq_of_browserKey hp' hp hvalid' hvalid hkey.symm) hsame
        · exact .shadowed hp envName hprocess hsame hkey.symm
  rcases hwhy with hmem | hp
  · rcases List.mem_append.mp hmem with hmem | hsetting
    · obtain ⟨⟨vaultName, source, value⟩, he, rfl⟩ := List.mem_map.mp hmem
      have hentry := Dict.mem_entries.mp he
      have horigin := htraced _ _ _ hentry
      obtain ⟨hget, -⟩ := hfind line hline source raw hassign horigin.relevant
      exact horigin.accounted (hstored _ _ _ hentry) hget
    · exact .setting hsetting
  · exact hsecret hp

/-- Lines joined, with two lines more. -/
theorem intercalate_append_two (lines : List Text) (a b : Text) :
    ['\n'].intercalate (lines ++ [a, b]) = lines.flatMap (· ++ ['\n']) ++ (a ++ '\n' :: b) := by
  induction lines with
  | nil => simp [List.intercalate]
  | cons line lines ih =>
    obtain ⟨next, rest, hrest⟩ := List.exists_cons_of_ne_nil (l := lines ++ [a, b]) (by simp)
    rw [List.cons_append, List.flatMap_cons, List.append_assoc, ← ih, hrest]
    simp [List.intercalate]

/-- Blanks at the end stand after a character that is none. -/
theorem rstrip_append_cons (hc : isPySpace c = false) (front back : Text) :
    rstrip (front ++ c :: back) = front ++ c :: rstrip back := by
  induction back using List.reverseRecOn with
  | nil =>
    rw [rstrip, List.rdropWhile_concat, if_neg (by rw [hc]; exact Bool.false_ne_true)]
    rfl
  | append_singleton back d ih =>
    unfold rstrip at ih ⊢
    rw [← List.cons_append, ← List.append_assoc, List.rdropWhile_concat, List.rdropWhile_concat, ih]
    split
    · rfl
    · rw [List.append_assoc]
      rfl

/-- The lines that are added, up to the path of the key file. -/
def addedLines : Text := "XBOW_VAULT_ENABLED=true\nXBOW_VAULT_MASTER_KEY_FILE=".toList

/-- The written text: the kept lines, each with its newline, and the two settings. -/
theorem rendered_eq (kept : List Text) (keyFile : Text) :
    rendered kept keyFile = kept.flatMap (· ++ ['\n']) ++ addedLines ++ rstrip keyFile ++ ['\n'] := by
  have hadded : addedLines = ("XBOW_VAULT_ENABLED=true\nXBOW_VAULT_MASTER_KEY_FILE".toList) ++ ['='] := by decide +kernel
  have hlines : "XBOW_VAULT_ENABLED=true".toList ++ '\n' :: ("XBOW_VAULT_MASTER_KEY_FILE=".toList ++ keyFile) =
      "XBOW_VAULT_ENABLED=true\nXBOW_VAULT_MASTER_KEY_FILE".toList ++ '=' :: keyFile := by
    rw [← List.cons_append, ← List.append_assoc, ← List.singleton_append (l := keyFile), ← List.append_assoc]
    exact congrArg (· ++ keyFile) (by decide +kernel)
  rw [rendered, intercalate_append_two, hlines, ← List.append_assoc, rstrip_append_cons (by decide), hadded]
  simp only [List.append_assoc, List.cons_append, List.nil_append]

/-- A file that is rewritten with itself as its source: of its lines, those that a condition keeps stand in the new text unchanged
and in their order, before the settings of the vault, and each of the others is an assignment that is accounted for. -/
theorem rewrite_accounts (u : Unicode) (aes : AesGcm) (key : List UInt8) (vault : Option Content) (s : Surroundings)
    {path out : Text} {source : Option Text} (hsource : sourcePath path source = path)
    (h : rewriteEnvFile u aes key vault s path source = .ok out) :
    ∃ original keyFile keep, readChecked s path (fun _ => true) = some original ∧
      out = ((splitlines original).filter keep).flatMap (· ++ ['\n']) ++ addedLines ++ rstrip keyFile ++ ['\n'] ∧
      ∀ line ∈ splitlines original, keep line = false →
        ∃ name raw, assignment? line = some (name, raw) ∧ Accounted u aes key vault s name (decodeEnvValue raw) := by
  unfold rewriteEnvFile at h
  split at h
  · cases h
  rename_i original hread
  rw [hsource] at h
  split at h
  · cases h
  rename_i sources hsources
  split at h
  · cases h
  split at h
  · cases h
  rename_i hverified
  split at h
  · cases h
  rename_i keyFile hkeyFile
  split at h
  · cases h
  split at h
  · cases h
  cases h
  refine ⟨original, keyFile, _, hread, rendered_eq _ _, fun line hline hdropped => ?_⟩
  exact accounted_of_dropped (ne_nil_of_readChecked hread) hread hsources hverified hline hdropped

def sampleText : Text := "XBOW_VAULT_ENABLED=false\nexport LLM_API_KEY='k'\n".toList

theorem sampleFile_current : (if ([] : Text) = ".env".toList then some (RegularFile.mk (some sampleText) true 46) else none) = none :=
  if_neg (by decide)

/-- A private file with the switch of the vault and a secret. -/
def sampleSurroundings : Surroundings where
  environ := Dict.empty.set "XBOW_VAULT_MASTER_KEY_FILE".toList "/k".toList
  isSymlink _ := false
  regularFile path := if path = ".env".toList then some ⟨some sampleText, true, 46⟩ else none
  pathText := id
  backupExists _ := false
  writeFails := false
  current := sampleFile_current

/-- The vault that holds the secret. -/
def sampleVault : Content :=
  .document (Dict.empty.set "llm_api_key" (SecretVault.Call.record SecretVault.sampleAes [] ⟨"llm_api_key", "k", SecretVault.sampleNonce⟩))

/-- The file after the rewriting. -/
def sampleOut : Text := "XBOW_VAULT_ENABLED=true\nXBOW_VAULT_MASTER_KEY_FILE=/k\n".toList

theorem rewrite_sample : rewriteEnvFile ExecutionContract.sampleUnicode SecretVault.sampleAes [] (some sampleVault)
    sampleSurroundings ".env".toList none = .ok sampleOut := by decide +kernel

theorem readChecked_sample : readChecked sampleSurroundings ".env".toList (fun _ => true) = some sampleText := by decide +kernel

/-- The rewriting changes the lines. -/
example : splitlines sampleText ≠ splitlines sampleOut := by decide +kernel

/-- The two lines of the sample are accounted for: a setting of the vault, and a secret that the vault holds. -/
theorem rewrite_accounts_sample :
    ∃ original keyFile keep, readChecked sampleSurroundings ".env".toList (fun _ => true) = some original ∧
      sampleOut = ((splitlines original).filter keep).flatMap (· ++ ['\n']) ++ addedLines ++ rstrip keyFile ++ ['\n'] ∧
      ∀ line ∈ splitlines original, keep line = false →
        ∃ name raw, assignment? line = some (name, raw) ∧ Accounted ExecutionContract.sampleUnicode SecretVault.sampleAes []
          (some sampleVault) sampleSurroundings name (decodeEnvValue raw) :=
  rewrite_accounts ExecutionContract.sampleUnicode SecretVault.sampleAes [] (some sampleVault) sampleSurroundings rfl
    rewrite_sample

/-- The line that switches the vault off assigns no secret, and the rewritten file does not have it. -/
theorem rewrite_drops_setting :
    ¬ ∀ (u : Unicode) (aes : AesGcm) (key : List UInt8) (vault : Option Content) (s : Surroundings) (path original out : Text)
      (source : Option Text), readChecked s path (fun _ => true) = some original →
      rewriteEnvFile u aes key vault s path source = .ok out →
      ∀ line ∈ splitlines original, (∀ name raw, assignment? line = some (name, raw) → isRelevant name = false) →
        line ∈ splitlines out := by
  intro h
  have hline : "XBOW_VAULT_ENABLED=false".toList ∈ splitlines sampleText := by decide +kernel
  have hassign : assignment? "XBOW_VAULT_ENABLED=false".toList = some ("XBOW_VAULT_ENABLED".toList, "false".toList) := by
    decide +kernel
  have hmem := h _ _ _ _ _ _ _ _ none readChecked_sample rewrite_sample _ hline fun name raw hname => by
    rw [hassign] at hname
    cases hname
    decide +kernel
  exact absurd hmem (by decide +kernel)

end VaultMigration

end XbowPerso
