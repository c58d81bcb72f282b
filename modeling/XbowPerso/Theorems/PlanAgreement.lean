import XbowPerso.Lemmas.ManifestPlan

/-!
# The builder of plans and the runner's check agree

The runner accepts the canonical text of a plan that the builder has made, under the digest and the counts that are signed for it,
exactly when the manifest's version is the integer one: the builder compares the version with `!=`, which lets `True` and `1.0`
through. Whatever text the runner accepts describes entries that are in order, apart from each other and within the limits.
-/

namespace XbowPerso

open RunnerRpc

namespace ManifestAdmission

variable {sha : Sha256}

/-! ## From the builder to the runner -/

variable {manifest : Manifest} {plan : AdmissionPlan}

/-- A built plan, taken apart. -/
theorem build_eq_ok (h : buildStrixManifestAdmissionPlan sha manifest = .ok plan) :
    Json.pyEq manifest.version (.int 1) = true ∧ Json.pyEq manifest.root (.str "/workspace") = true ∧
      planEntries sha manifest.entries = .ok plan.entries ∧ planEnvironment sha manifest.environment = .ok plan.environment ∧
      plan.canonicalJson = canonicalPayload manifest.version manifest.root plan.entries plan.environment ∧
      plan.manifestDigest = sha.hex (utf8 plan.canonicalJson) ∧
      plan.counts = ⟨plan.entries.length, plan.entries.countP (fun e => e.kind = "file"),
        plan.entries.countP (fun e => e.kind = "local_dir"), fileBytes plan.entries, environmentBytes plan.environment⟩ := by
  unfold buildStrixManifestAdmissionPlan at h
  split at h
  · cases h
  rename_i hversion
  split at h
  · cases h
  rename_i hroot
  split at h
  · cases h
  split at h
  · cases h
  split at h
  · cases h
  split at h
  · cases h
  rename_i entries hentries
  split at h
  · cases h
  rename_i environment henvironment
  cases h
  exact ⟨by simpa using hversion, by simpa using hroot, hentries, henvironment, rfl, rfl, rfl⟩

variable {v : Json}

/-- A value that equals a text is the text. -/
theorem eq_str_of_pyEq {s : String} (h : Json.pyEq v (.str s) = true) : v = .str s := by
  cases v with
  | str t => exact congrArg Json.str (of_decide_eq_true h)
  | _ => simp [Json.pyEq, Json.decimal?] at h

/-- A value that equals the integer one is a number, or true. -/
theorem scalar_of_pyEq (h : Json.pyEq v (.int 1) = true) : v.Distinct ∧ v.sortKeys = v := by
  cases v with
  | arr => simp [Json.pyEq, Json.decimal?] at h
  | obj => simp [Json.pyEq, Json.decimal?] at h
  | _ => exact ⟨trivial, rfl⟩

theorem distinct_toDict (e : EntryPlan) : (Json.obj e.toDict).Distinct := by
  refine ⟨nodup_keys_toDict e, ?_⟩
  rw [Json.distinctFields_iff]
  cases e with
  | mk path kind bytes digest present redacted pathDigest contentDigest inspected uploaded =>
    cases bytes <;> cases digest <;> cases pathDigest <;> cases contentDigest <;>
      simp [EntryPlan.toDict, jsonOption, jsonNat, Json.Distinct]

theorem distinct_toDict_environment (e : EnvironmentPlan) : (Json.obj e.toDict).Distinct :=
  ⟨nodup_keys_toDict_environment e, trivial, trivial, trivial, trivial⟩

theorem nodup_keys_payload (version root : Json) (entries : List EntryPlan) (environment : List EnvironmentPlan) :
    ((payload version root entries environment).map (·.1)).Nodup := by
  simp [payload]

theorem distinct_payload {version root : Json} (hversion : version.Distinct) (hroot : root.Distinct)
    (entries : List EntryPlan) (environment : List EnvironmentPlan) :
    (Json.obj (payload version root entries environment)).Distinct := by
  refine ⟨nodup_keys_payload version root entries environment, trivial, hversion, hroot, ?_, ?_, trivial, trivial, trivial,
    trivial, trivial, trivial⟩
  · refine (Json.distinctElems_iff _).mpr fun v hv => ?_
    obtain ⟨e, -, rfl⟩ := List.mem_map.mp hv
    exact distinct_toDict e
  · refine (Json.distinctElems_iff _).mpr fun v hv => ?_
    obtain ⟨e, -, rfl⟩ := List.mem_map.mp hv
    exact distinct_toDict_environment e

/-- The list of paths in order is what sorting it gives. -/
theorem sortedTexts_of_pairwise {texts : List String} (h : texts.Pairwise (· ≤ ·)) : sortedTexts texts = texts :=
  List.Pairwise.insertionSort_eq h

/-- The runner's check of the two lists of a built plan. -/
theorem checkPlanLists_payload {entries : List EntryPlan} {environment : List EnvironmentPlan}
    (he : PlannedEntries sha entries) (hv : PlannedEnvironment environment) :
    checkPlanLists (Json.arr (entries.map fun e => .obj e.toDict)).sortKeys
      (Json.arr (environment.map fun e => .obj e.toDict)).sortKeys
      ⟨entries.length, entries.countP (fun e => e.kind = "file"), entries.countP (fun e => e.kind = "local_dir"),
        fileBytes entries, environmentBytes environment⟩ = .ok () := by
  have hsorted : (entries.map (·.path)).Pairwise (· ≤ ·) := List.pairwise_map.mpr he.sorted
  have hkeys : (environment.map (·.key)).Pairwise (· ≤ ·) := List.pairwise_map.mpr hv.sorted
  have hentries := checkEntries_toDict he.shape [] he.nodup
    (fun p hp e hmem => by
      obtain ⟨a, ha, rfl⟩ := List.mem_map.mp hp
      exact he.apart a ha e hmem) ⟨0, 0, 0⟩
  have henvironment := checkEnvironment_toDict hv.shape [] hv.nodup 0
  rw [foldl_add he.shape] at hentries
  simp only [Nat.zero_add, List.nil_append] at hentries henvironment
  have harr : ∀ {α : Type} (f : α → Json) (xs : List α), (Json.arr (xs.map f)).sortKeys = .arr (xs.map fun x => (f x).sortKeys) := by
    intro α f xs
    rw [Json.sortKeys, Json.sortKeysElems_eq, List.map_map]
    rfl
  have hlen : ¬ 128 < entries.length := not_lt.mpr he.length_le
  have hvlen : ¬ 64 < environment.length := not_lt.mpr hv.length_le
  have hbytes : ¬ 4 * 1024 * 1024 < fileBytes entries := not_lt.mpr he.bytes_le
  have hvbytes : ¬ 16 * 1024 < environmentBytes environment := not_lt.mpr hv.bytes_le
  rw [harr, harr, checkPlanLists]
  dsimp only
  rw [List.length_map, List.length_map, if_neg hlen, if_neg hvlen, hentries]
  dsimp only
  rw [sortedTexts_of_pairwise hsorted, if_neg (by simpa using hbytes), henvironment]
  dsimp only
  rw [sortedTexts_of_pairwise hkeys, if_neg (by simpa using hvbytes), if_neg (by simp)]

/-- What the runner reads from the canonical text of a payload. -/
theorem loads_canonicalPayload (version root : Json) (hversion : version.Distinct) (hroot : root.Distinct)
    (entries : List EntryPlan) (environment : List EnvironmentPlan) :
    ∃ d, Json.loads (canonicalPayload version root entries environment) = some (.obj d) ∧
      (Json.obj d).dumpsSorted = canonicalPayload version root entries environment ∧
      Reads d (payload version root entries environment) := by
  have hdistinct := distinct_payload hversion hroot entries environment
  have hkeys := nodup_keys_payload version root entries environment
  unfold canonicalPayload
  generalize payload version root entries environment = fields at hdistinct hkeys
  refine ⟨Json.sortFields (Json.sortKeysFields fields), ?_, ?_, reads_sortKeys hkeys⟩
  · rw [Json.loads_dumpsSorted hdistinct, Json.sortKeys_obj]
  · rw [← Json.sortKeys_obj, Json.dumpsSorted_sortKeys]

/-- The runner accepts the canonical text of a built plan under what is signed for it. -/
def RunnerAccepts (sha : Sha256) (plan : AdmissionPlan) : Prop :=
  verifyCanonicalManifestPlan sha plan.canonicalJson plan.manifestDigest plan.counts = .ok plan.canonicalJson.utf8ByteSize

/-- Where the version is the integer one, the runner accepts. -/
theorem runnerAccepts_of_int
    (h : buildStrixManifestAdmissionPlan sha manifest = .ok plan) (hint : manifest.version = .int 1) :
    RunnerAccepts sha plan := by
  obtain ⟨-, hroot, hentries, henvironment, htext, hdigest, hcounts⟩ := build_eq_ok h
  have hroot := eq_str_of_pyEq hroot
  rw [hint, hroot] at htext
  obtain ⟨items, planned, -, -, -, he⟩ := planEntries_eq_ok hentries
  have hv := planEnvironment_eq_ok henvironment
  obtain ⟨d, hloads, hdumps, hd⟩ := loads_canonicalPayload (.int 1) (.str "/workspace") trivial trivial
    plan.entries plan.environment
  have hsize : plan.canonicalJson.utf8ByteSize ≤ planMaxBytes := by
    rw [htext, canonicalPayload, Json.utf8ByteSize_dumpsSorted]
    exact size_payload he hv
  have hlength : plan.canonicalJson.length ≤ planMaxBytes := (Json.length_le_utf8ByteSize _).trans hsize
  have hkeys : exactKeys d planKeys = true := hd.keys
  have hlists : checkPlanLists (item d "entries") (item d "environment") plan.counts = .ok () := by
    rw [hd.item, hd.item, hcounts]
    exact checkPlanLists_payload he hv
  have hschema : isStr (item d "schema") planSchema = true := by
    rw [hd.item]
    rfl
  have hversion : planCount? (item d "manifest_version") 1 = some 1 := by
    rw [hd.item]
    rfl
  have hworkspace : isStr (item d "root") "/workspace" = true := by
    rw [hd.item]
    rfl
  have hflags : planFlags.any (fun k => !isBool (item d k) false) = false := by
    simp only [planFlags, hd.item, List.any_cons, List.any_nil]
    rfl
  rw [RunnerAccepts, verifyCanonicalManifestPlan, if_neg (by omega), htext, hloads]
  dsimp only
  rw [hdumps, hkeys, ← htext, if_neg (by simp), hdigest, if_neg (by simp [sha.hex_valid]), hschema, hversion, hworkspace, hflags,
    if_neg (by simp), hlists]

/-- What the runner accepts has the integer one as its version. -/
theorem int_of_runnerAccepts
    (h : buildStrixManifestAdmissionPlan sha manifest = .ok plan) (hacc : RunnerAccepts sha plan) :
    manifest.version = .int 1 := by
  obtain ⟨hversion, hroot, -, -, htext, -, -⟩ := build_eq_ok h
  have hroot := eq_str_of_pyEq hroot
  obtain ⟨hdistinct, hsorted⟩ := scalar_of_pyEq hversion
  rw [hroot] at htext
  obtain ⟨d, hloads, -, hd⟩ := loads_canonicalPayload _ (.str "/workspace") hdistinct trivial plan.entries
    plan.environment
  rw [RunnerAccepts, verifyCanonicalManifestPlan, htext, hloads] at hacc
  split at hacc
  · cases hacc
  dsimp only at hacc
  split at hacc
  · cases hacc
  split at hacc
  · cases hacc
  split at hacc
  · cases hacc
  rename_i hinvariants
  rw [not_or, not_or, not_not] at hinvariants
  have hcount := hinvariants.2.1
  rw [hd.item, show item (payload manifest.version (.str "/workspace") plan.entries plan.environment) "manifest_version" =
    manifest.version from rfl, hsorted] at hcount
  cases hv : manifest.version with
  | int n =>
    rw [hv, planCount?] at hcount
    split at hcount
    · have hn := Option.some.inj hcount
      rw [show n = 1 by omega]
    · cases hcount
  | _ => rw [hv] at hcount; cases hcount

/-! ## From the runner to the text -/

/-- A later path is another one, and none of the earlier ones is above it. -/
def ApartFrom (p q : String) : Prop := p ≠ q ∧ p.toList ∉ PosixPath.ancestors q.toList

variable {paths : List String}

/-- An entry that the runner takes. -/
theorem checkEntry_eq_ok {path : String} {bytes : Option Nat}
    (h : checkEntry v paths = .ok (path, bytes)) :
    entryPath? v = some path ∧ PlanPath path ∧ (∀ p ∈ paths, ApartFrom p path) ∧
      (planFile? v).map (·.2.2) = bytes ∧ ∀ n, bytes = some n → n ≤ maxInlineFileBytes := by
  unfold checkEntry at h
  split at h
  swap
  · cases h
  rename_i d
  split at h
  · cases h
  split at h
  · cases h
  rename_i p hp
  split at h
  · cases h
  rename_i hnew
  split at h
  · cases h
  rename_i hapart
  split at h
  · cases h
  have hpath : item d "path" = .str p ∧ isPlanPath p = true := by
    unfold planPath? at hp
    split at hp
    · split at hp
      · rename_i s hs hok
        cases hp
        exact ⟨hs, hok⟩
      · cases hp
    · cases hp
  have hread : entryPath? (.obj d) = some p := by
    rw [entryPath?, hpath.1]
  have hapart' : ∀ q ∈ paths, ApartFrom q p := by
    intro q hq
    refine ⟨fun heq => hnew (heq ▸ hq), fun hanc => ?_⟩
    exact hapart (List.any_eq_true.mpr ⟨q.toList, hanc, decide_eq_true (by rwa [String.ofList_toList])⟩)
  split at h
  · rename_i hkind
    split at h
    · rename_i n digest hcount hdigest
      split at h
      · cases h
      cases h
      obtain ⟨m, hm, hle, hmn⟩ : ∃ m : Int, item d "content_bytes" = .int m ∧ m ≤ (1024 * 1024 : Nat) ∧ m.toNat = n := by
        unfold planCount? at hcount
        split at hcount
        · split at hcount
          · rename_i m hm hle
            exact ⟨m, hm, hle.2, Option.some.inj hcount⟩
          · cases hcount
        · cases hcount
      obtain ⟨s, hs⟩ : ∃ s, item d "content_sha256" = .str s := by
        unfold validDigest? at hdigest
        split at hdigest
        · exact ⟨_, by assumption⟩
        · cases hdigest
      refine ⟨hread, planPath_of_isPlanPath hpath.2, hapart', ?_, ?_⟩
      · rw [planFile?, if_pos hkind, hpath.1, hs, hm, ← hmn]
        rfl
      · rintro k ⟨rfl⟩
        have hlimit : maxInlineFileBytes = 1024 * 1024 := rfl
        omega
    · cases h
  · rename_i hkind
    split at h
    · split at h
      · cases h
      cases h
      refine ⟨hread, planPath_of_isPlanPath hpath.2, hapart', ?_, by simp⟩
      rw [planFile?, if_neg hkind]
      rfl
    · cases h

/-- The sizes of the files among the entries. -/
def fileSizes (entries : List Json) : List Nat := (entries.filterMap planFile?).map (·.2.2)

theorem fileSizes_cons (v : Json) (entries : List Json) :
    fileSizes (v :: entries) = ((planFile? v).map (·.2.2)).toList ++ fileSizes entries := by
  rw [fileSizes, List.filterMap_cons, fileSizes]
  cases planFile? v <;> rfl

theorem add_counts (t : PlanTotals) (bytes : Option Nat) :
    (t.add bytes).files = t.files + bytes.toList.length ∧ (t.add bytes).fileBytes = t.fileBytes + bytes.toList.sum := by
  cases bytes <;> simp [PlanTotals.add]

/-- The loop over the entries, one entry at a time. -/
theorem checkEntries_eq_ok {entries : List Json} {out : List String} {t t' : PlanTotals}
    (h : checkEntries paths t entries = .ok (out, t')) (hpaths : paths.Pairwise ApartFrom) :
    out.Pairwise ApartFrom ∧ t'.files = t.files + (fileSizes entries).length ∧
      t'.fileBytes = t.fileBytes + (fileSizes entries).sum ∧ (∀ n ∈ fileSizes entries, n ≤ maxInlineFileBytes) ∧
      ∃ added, out = paths ++ added ∧ entries.map entryPath? = added.map some ∧ ∀ p ∈ added, PlanPath p := by
  induction entries generalizing paths t with
  | nil =>
    cases h
    exact ⟨hpaths, rfl, rfl, by simp [fileSizes], [], by simp, rfl, by simp⟩
  | cons v entries ih =>
    rw [checkEntries] at h
    split at h
    · cases h
    rename_i path bytes hv
    obtain ⟨hread, hplan, hapart, hbytes, hle⟩ := checkEntry_eq_ok hv
    have hnext : (paths ++ [path]).Pairwise ApartFrom := by
      rw [List.pairwise_append]
      refine ⟨hpaths, List.pairwise_singleton _ _, ?_⟩
      intro p hp q hq
      rw [List.mem_singleton.mp hq]
      exact hapart p hp
    obtain ⟨hout, hfiles, hsum, hsizes, added, hadded, hmap, hall⟩ := ih h hnext
    obtain ⟨haddFiles, haddBytes⟩ := add_counts t bytes
    rw [fileSizes_cons, hbytes]
    refine ⟨hout, ?_, ?_, ?_, path :: added, by rw [hadded]; simp, by simp [hread, hmap], ?_⟩
    · rw [hfiles, haddFiles, List.length_append, Nat.add_assoc]
    · rw [hsum, haddBytes, List.sum_append, Nat.add_assoc]
    · intro n hn
      rcases List.mem_append.mp hn with hn | hn
      · exact hle n (Option.mem_toList.mp hn)
      · exact hsizes n hn
    · intro p hp
      rcases List.mem_cons.mp hp with rfl | hp
      · exact hplan
      · exact hall p hp

/-- A text is below what it begins. -/
theorem lt_append_cons (p rest : List Char) (c : Char) : String.ofList p < String.ofList (p ++ c :: rest) := by
  rw [String.lt_iff_toList_lt, String.toList_ofList, String.toList_ofList]
  induction p with
  | nil => exact List.nil_lt_cons c rest
  | cons a p ih => exact List.cons_lt_cons_iff.mpr (.inr ⟨rfl, ih⟩)

/-- Paths of which none is above a later one, in order: none is above another. -/
theorem not_ancestor_of_sorted (h : paths.Pairwise ApartFrom) (hsorted : paths.Pairwise (· ≤ ·)) :
    ∀ p ∈ paths, ∀ q ∈ paths, p.toList ∉ PosixPath.ancestors q.toList := by
  have hboth : paths.Pairwise fun p q => p.toList ∉ PosixPath.ancestors q.toList ∧ q.toList ∉ PosixPath.ancestors p.toList := by
    refine (h.and hsorted).imp ?_
    rintro p q ⟨⟨-, hpq⟩, hle⟩
    refine ⟨hpq, fun hqp => ?_⟩
    obtain ⟨rest, hrest⟩ := PosixPath.mem_ancestors.mp hqp
    have hlt := lt_append_cons q.toList rest '/'
    rw [← hrest, String.ofList_toList, String.ofList_toList] at hlt
    exact absurd hle (not_le.mpr hlt)
  have hself : ∀ p : String, p.toList ∉ PosixPath.ancestors p.toList := by
    intro p hp
    obtain ⟨rest, hrest⟩ := PosixPath.mem_ancestors.mp hp
    have hlen := congrArg List.length hrest
    rw [List.length_append, List.length_cons] at hlen
    omega
  have hflip := hboth.imp (S := flip fun p q => p.toList ∉ PosixPath.ancestors q.toList ∧
    q.toList ∉ PosixPath.ancestors p.toList) fun h => ⟨h.2, h.1⟩
  intro p hp q hq
  exact (List.Pairwise.forall_of_forall_of_flip (fun x _ => ⟨hself x, hself x⟩) hboth hflip hp hq).1

/-- What a text of a plan says when the runner accepts it: its paths are relative, clean, in order and apart from each other, and
the sizes of its files meet the limits and have the signed sum. -/
structure WellFormedPlan (planJson : String) (counts : SignedCounts) (paths : List String) : Prop where
  paths_eq : (RunnerRpc.planEntries planJson).map entryPath? = paths.map some
  sorted : paths.Pairwise (· < ·)
  relative : ∀ p ∈ paths, p ≠ "" ∧ p.toList.head? ≠ some '/'
  clean : ∀ p ∈ paths, ∀ segment ∈ PosixPath.segments p.toList, segment ≠ [] ∧ segment ≠ ['.'] ∧ segment ≠ ['.', '.']
  apart : ∀ p ∈ paths, ∀ q ∈ paths, ¬ ∃ rest, q.toList = p.toList ++ '/' :: rest
  entryCount : paths.length = counts.entryCount
  fileCount : (fileSizes (RunnerRpc.planEntries planJson)).length = counts.inlineFileCount
  fileBytes : (fileSizes (RunnerRpc.planEntries planJson)).sum = counts.inlineFileBytes
  entryCount_le : paths.length ≤ maxEntries
  fileSize_le : ∀ n ∈ fileSizes (RunnerRpc.planEntries planJson), n ≤ maxInlineFileBytes
  fileBytes_le : (fileSizes (RunnerRpc.planEntries planJson)).sum ≤ maxTotalInlineFileBytes

/-- The checks of the lists of an accepted plan. -/
theorem wellFormed_of_checkPlanLists {planJson : String} {entries env : Json} {counts : SignedCounts}
    (h : checkPlanLists entries env counts = .ok ()) (hread : ∀ vs, entries = .arr vs → RunnerRpc.planEntries planJson = vs) :
    ∃ paths, WellFormedPlan planJson counts paths := by
  unfold checkPlanLists at h
  split at h
  swap
  · cases h
  rename_i vs
  split at h
  · cases h
  rename_i hlen
  split at h
  swap
  · cases h
  split at h
  · cases h
  split at h
  · cases h
  rename_i paths t hentries
  split at h
  · cases h
  rename_i horder
  split at h
  · cases h
  split at h
  · cases h
  split at h
  · cases h
  rename_i hcounts
  rw [not_or, not_not, not_lt] at horder
  simp only [not_or, not_not] at hcounts
  obtain ⟨hapart, hfiles, hsum, hsizes, added, hadded, hmap, hplan⟩ := checkEntries_eq_ok hentries List.Pairwise.nil
  rw [List.nil_append] at hadded
  subst hadded
  have hle : paths.Pairwise (· ≤ ·) := by
    have : Std.Total (fun a b : String => a ≤ b) := ⟨fun a b => le_total a b⟩
    have : IsTrans String (fun a b => a ≤ b) := ⟨fun a b c => le_trans⟩
    rw [horder.1]
    exact List.pairwise_insertionSort _ _
  have hlength : vs.length = paths.length := by
    have hlen := congrArg List.length hmap
    rwa [List.length_map, List.length_map] at hlen
  rw [Nat.zero_add] at hfiles hsum
  have hvs := hread vs rfl
  refine ⟨paths, ?_⟩
  refine ⟨hvs ▸ hmap, (hapart.and hle).imp fun h => lt_of_le_of_ne h.2 h.1.1, fun p hp => ?_, fun p hp s hs => ?_, ?_, ?_, ?_, ?_,
    ?_, ?_, ?_⟩
  · exact ⟨(hplan p hp).notEmpty, head?_ne_slash (hplan p hp).clean⟩
  · have hdots := (hplan p hp).clean s hs
    simp only [PosixPath.isDots, Bool.or_eq_false_iff, decide_eq_false_iff_not] at hdots
    exact ⟨hdots.1.1, hdots.1.2, hdots.2⟩
  · intro p hp q hq hrest
    exact not_ancestor_of_sorted hapart hle p hp q hq (PosixPath.mem_ancestors.mpr hrest)
  · exact hlength ▸ hcounts.1
  · rw [hvs, ← hfiles]
    exact hcounts.2.1
  · rw [hvs, ← hsum]
    exact hcounts.2.2.2.1
  · rw [← hlength]
    exact not_lt.mp hlen
  · rw [hvs]
    exact hsizes
  · rw [hvs, ← hsum]
    exact horder.2

/-- Whatever text the runner accepts is well formed. -/
theorem wellFormed_of_accepted {planJson digest : String} {counts : SignedCounts} {bytes : Nat}
    (h : verifyCanonicalManifestPlan sha planJson digest counts = .ok bytes) :
    ∃ paths, WellFormedPlan planJson counts paths := by
  unfold verifyCanonicalManifestPlan at h
  split at h
  · cases h
  split at h
  · cases h
  rename_i plan hloads
  split at h
  swap
  · cases h
  rename_i d
  split at h
  · cases h
  split at h
  · cases h
  split at h
  · cases h
  split at h
  · cases h
  rename_i hlists
  refine wellFormed_of_checkPlanLists hlists fun vs hvs => ?_
  rw [RunnerRpc.planEntries, hloads]
  dsimp only
  rw [hvs]

/-- The runner accepts a built plan under what is signed for it exactly when the manifest's version is the integer one; and what it
accepts is well formed. -/
theorem plan_agreement (sha : Sha256) :
    (∀ manifest plan, buildStrixManifestAdmissionPlan sha manifest = .ok plan →
      (RunnerAccepts sha plan ↔ manifest.version = .int 1)) ∧
      ∀ planJson digest counts bytes, verifyCanonicalManifestPlan sha planJson digest counts = .ok bytes →
        ∃ paths, WellFormedPlan planJson counts paths :=
  ⟨fun _ _ h => ⟨int_of_runnerAccepts h, runnerAccepts_of_int h⟩, fun _ _ _ _ => wellFormed_of_accepted⟩

/-! ## At a manifest with one file -/

/-- A digest of the right form. -/
def sampleSha : Sha256 := ⟨fun _ => String.ofList (List.replicate 64 '0'), fun _ => by decide⟩

/-- A manifest with one file and the given version. -/
def sampleManifest (version : Json) : Manifest where
  version := version
  root := .str "/workspace"
  hasUsers := false
  hasGroups := false
  hasExtraPathGrants := false
  entries := some (Dict.empty.set (.str (.text "a/b")) ⟨some "file", some [1, 2], none⟩)
  environment := some Dict.empty

/-- What is built for it. -/
def samplePlan (version : Json) : AdmissionPlan where
  schema := schema
  manifestVersion := version
  root := .str "/workspace"
  entries := [filePlan sampleSha "a/b" [1, 2]]
  environment := []
  entryCount := 1
  inlineFileCount := 1
  localDirCount := 0
  inlineFileBytes := 2
  environmentValueBytes := 0
  hostPathsIncluded := false
  rawFileContentIncluded := false
  filesystemIoPerformed := false
  manifestMaterialized := false
  uploadEnabled := false
  manifestDigest := sampleSha.hex []

theorem build_samplePlan : buildStrixManifestAdmissionPlan sampleSha (sampleManifest (.int 1)) = .ok (samplePlan (.int 1)) ∧
    buildStrixManifestAdmissionPlan sampleSha (sampleManifest (.bool true)) = .ok (samplePlan (.bool true)) := by
  exact ⟨rfl, rfl⟩

theorem plan_agreement_sample : RunnerAccepts sampleSha (samplePlan (.int 1)) ∧
    ∃ paths, WellFormedPlan (samplePlan (.int 1)).canonicalJson (samplePlan (.int 1)).counts paths := by
  have haccepts := ((plan_agreement sampleSha).1 _ _ build_samplePlan.1).mpr rfl
  exact ⟨haccepts, (plan_agreement sampleSha).2 _ _ _ _ haccepts⟩

/-- A manifest whose version is `True` is built, and its plan is rejected. -/
theorem plan_of_true_rejected : ∃ manifest plan, buildStrixManifestAdmissionPlan sampleSha manifest = .ok plan ∧
    ¬ RunnerAccepts sampleSha plan := by
  refine ⟨sampleManifest (.bool true), samplePlan (.bool true), build_samplePlan.2, fun h => ?_⟩
  have hversion := int_of_runnerAccepts build_samplePlan.2 h
  cases hversion

end ManifestAdmission

end XbowPerso
