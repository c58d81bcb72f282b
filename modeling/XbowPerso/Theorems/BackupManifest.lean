import XbowPerso.BackupManifest
import XbowPerso.Theorems.CampaignChain

/-!
# A manifest is as good as its seal, if it has one

A document that carries a signature of the key has the entries of a manifest that was sealed. A document of version 1 needs no signature,
and is reported valid whenever its entries describe the files.
-/

namespace XbowPerso

namespace BackupManifest

open AuditSeal

variable {env : AuditEnv} {manifest : Manifest} {backup : Backup} {items : List Json}

/-! ## The comparison with the files -/

theorem verifyArtifact_eq_true_iff {right : Artifact} :
    verifyArtifact env items right = .ok true ↔ ∃ entry, expected? env items right.kind = some entry ∧
      itemGet entry "filename" = .str right.filename ∧ itemGet entry "size_bytes" = .int right.sizeBytes ∧
      itemGet entry "sha256" = .str right.sha256 := by
  unfold verifyArtifact
  cases hleft : expected? env items right.kind with
  | none => simp
  | some left =>
    constructor
    · intro h
      refine ⟨left, rfl, ?_⟩
      dsimp only at h
      split at h
      case h_1 size hsize =>
        split at h
        case isTrue => cases h
        case isFalse =>
          split at h
          case h_1 filename sha256 hfilename hsha =>
            obtain ⟨rfl, rfl, rfl⟩ := of_decide_eq_true (Except.ok.inj h)
            exact ⟨hfilename, hsize, hsha⟩
          case h_2 => cases h
      case h_2 => cases h
    · rintro ⟨entry, hentry, hfilename, hsize, hsha⟩
      cases hentry
      dsimp only
      rw [hsize, hfilename, hsha]
      dsimp only
      rw [if_neg (by omega)]
      simp

theorem verifyArtifacts_valid_iff {rights : List Artifact} :
    (∃ results, verifyArtifacts env items rights = .ok results ∧ results.all (·.2) = true) ↔
      ∀ right ∈ rights, verifyArtifact env items right = .ok true := by
  induction rights with
  | nil => simp [verifyArtifacts]
  | cons right rights ih =>
    rw [List.forall_mem_cons, ← ih]
    constructor
    · rintro ⟨results, h, hall⟩
      rw [verifyArtifacts] at h
      cases hright : verifyArtifact env items right with
      | error e =>
        rw [hright] at h
        cases h
      | ok valid =>
        cases hrest : verifyArtifacts env items rights with
        | error e =>
          rw [hright, hrest] at h
          cases h
        | ok rest =>
          rw [hright, hrest] at h
          cases h
          rw [List.all_cons, Bool.and_eq_true] at hall
          exact ⟨congrArg Except.ok hall.1, rest, rfl, hall.2⟩
    · rintro ⟨hright, rest, hrest, hall⟩
      refine ⟨(right.kind, true) :: rest, ?_, hall⟩
      rw [verifyArtifacts, hright, hrest]
      rfl

theorem safeBackupFile_eq_ok_iff {file file' : BackupFile} {label : String} :
    safeBackupFile file label = .ok file' ↔ file' = file ∧ file.regular = true ∧ 0 < file.content.length ∧
      file.content.length ≤ 50 * 1024 * 1024 * 1024 := by
  unfold safeBackupFile
  cases hregular : file.regular with
  | false => simp
  | true =>
    by_cases hempty : file.content.length ≤ 0
    · rw [if_neg (by decide), if_pos hempty]
      exact iff_of_false (fun h => (by cases h)) fun h => absurd h.2.2.1 (by omega)
    · by_cases hlarge : file.content.length > 50 * 1024 * 1024 * 1024
      · rw [if_neg (by decide), if_neg hempty, if_pos hlarge]
        exact iff_of_false (fun h => (by cases h)) fun h => absurd h.2.2.2 (by omega)
      · rw [if_neg (by decide), if_neg hempty, if_neg hlarge, Except.ok.injEq]
        exact ⟨fun h => ⟨h.symm, rfl, by omega, by omega⟩, fun h => h.1.symm⟩

theorem buildArtifacts_eq_ok_iff {files : List (String × BackupFile)} {artifacts : List Artifact} :
    buildArtifacts env files = .ok artifacts ↔ artifacts = files.map (fun entry => Artifact.of env entry.1 entry.2) ∧
      ∀ entry ∈ files, safeBackupFile entry.2 entry.1 = .ok entry.2 := by
  induction files generalizing artifacts with
  | nil => simp [buildArtifacts, eq_comm]
  | cons entry files ih =>
    obtain ⟨kind, file⟩ := entry
    rw [buildArtifacts, List.forall_mem_cons, List.map_cons]
    cases hfile : safeBackupFile file kind with
    | error e => exact iff_of_false (fun h => (by cases h)) fun h => (by cases h.2.1)
    | ok file' =>
      obtain ⟨rfl, _⟩ := safeBackupFile_eq_ok_iff.mp hfile
      cases hrest : buildArtifacts env files with
      | error e =>
        refine iff_of_false (fun h => (by cases h)) fun h => ?_
        rw [ih.mpr ⟨rfl, h.2.2⟩] at hrest
        cases hrest
      | ok rest =>
        obtain ⟨hrest', hsafe⟩ := ih.mp hrest
        constructor
        · intro h
          cases h
          exact ⟨by rw [hrest'], rfl, hsafe⟩
        · rintro ⟨rfl, _⟩
          rw [← hrest']
          rfl

/-- The loop over the kinds finds every entry to describe its file. -/
theorem results_valid_iff :
    (∃ current results, buildArtifacts env backup.files = .ok current ∧ verifyArtifacts env items current = .ok results ∧
      results.all (·.2) = true) ↔ ∀ entry ∈ backup.files, DescribesFile env items entry.1 entry.2 := by
  constructor
  · rintro ⟨current, results, hcurrent, hresults, hall⟩ entry hentry
    obtain ⟨rfl, hsafe⟩ := buildArtifacts_eq_ok_iff.mp hcurrent
    have hright := verifyArtifacts_valid_iff.mp ⟨results, hresults, hall⟩ _ (List.mem_map_of_mem hentry)
    obtain ⟨_, hregular, hpos, hle⟩ := safeBackupFile_eq_ok_iff.mp (hsafe entry hentry)
    exact ⟨hregular, hpos, hle, verifyArtifact_eq_true_iff.mp hright⟩
  · intro h
    have hsafe : ∀ entry ∈ backup.files, safeBackupFile entry.2 entry.1 = .ok entry.2 := fun entry hentry =>
      safeBackupFile_eq_ok_iff.mpr ⟨rfl, (h entry hentry).1, (h entry hentry).2.1, (h entry hentry).2.2.1⟩
    have hall : ∀ right ∈ backup.files.map (fun entry => Artifact.of env entry.1 entry.2), verifyArtifact env items right = .ok true := by
      intro right hright
      obtain ⟨entry, hentry, rfl⟩ := List.mem_map.mp hright
      exact verifyArtifact_eq_true_iff.mpr (h entry hentry).2.2.2
    obtain ⟨results, hresults, hvalid⟩ := verifyArtifacts_valid_iff.mpr hall
    exact ⟨_, results, buildArtifacts_eq_ok_iff.mpr ⟨rfl, hsafe⟩, hresults, hvalid⟩

/-! ## The signature -/

variable {secret : ResolvedSecret} {key : String}

theorem resolved_of_key {message : String} (h : secret.key = some key) :
    resolved message secret = .ok (some key) := by
  cases secret with
  | error e => cases h
  | ok secret => exact congrArg Except.ok h

theorem compareSignature_eq_ok {signature : String} (hkey : secret.key = some key) {valid : Option Bool}
    (h : compareSignature env secret manifest signature = .ok valid) :
    valid = some false ∨ (valid = some true ∧ signature = env.hmac key (canonicalManifest manifest)) := by
  unfold compareSignature verificationSecret at h
  rw [resolved_of_key hkey] at h
  dsimp only at h
  cases hcompare : compareDigest env (.str signature) (env.hmac key (canonicalManifest manifest)) with
  | error e =>
    rw [hcompare] at h
    cases h
  | ok same =>
    rw [hcompare] at h
    cases h
    cases same with
    | false => exact Or.inl rfl
    | true => exact Or.inr ⟨rfl, (env.str_str signature).symm.trans (str_eq_of_compareDigest hcompare)⟩

/-- A signature that passes is the one of the key, or is missing from a document of version 1. -/
theorem verifyManifestSignature_eq_ok (hkey : secret.key = some key) {valid : Option Bool}
    (h : verifyManifestSignature env secret manifest = .ok valid) :
    valid = some false ∨ (valid = some true ∧ SealedWith env key manifest) ∨ (valid = none ∧ UnsignedLegacy manifest) := by
  have hsealed : ∀ {signature : String}, (isVersion manifest 1 = true ∨ isVersion manifest 2 = true) →
      manifest.get "manifest_signature" = .str signature → compareSignature env secret manifest signature = .ok valid →
      valid = some false ∨ (valid = some true ∧ SealedWith env key manifest) ∨ (valid = none ∧ UnsignedLegacy manifest) := by
    intro signature hversion hget hcompare
    rcases compareSignature_eq_ok hkey hcompare with hfalse | ⟨htrue, rfl⟩
    · exact Or.inl hfalse
    · exact Or.inr (Or.inl ⟨htrue, hversion, hget⟩)
  unfold verifyManifestSignature at h
  dsimp only at h
  cases h2 : isVersion manifest 2 with
  | true =>
    rw [h2, if_pos rfl] at h
    split at h
    case h_1 signature hget =>
      split at h
      case isTrue => cases h
      case isFalse => exact hsealed (Or.inr h2) hget h
    case h_2 => cases h
  | false =>
    rw [h2, if_neg Bool.false_ne_true] at h
    cases h1 : isVersion manifest 1 with
    | false =>
      rw [h1, if_neg Bool.false_ne_true] at h
      cases h
    | true =>
      rw [h1, if_pos rfl] at h
      split at h
      case h_1 hget =>
        split at h
        case isTrue => cases h
        case isFalse halgorithm =>
          split at h
          case isTrue => cases h
          case isFalse hmode =>
            cases h
            exact Or.inr (Or.inr ⟨rfl, h2, h1, hget, (Bool.not_eq_false _).mp halgorithm, (Bool.not_eq_false _).mp hmode⟩)
      case h_2 =>
        split at h
        case isTrue => cases h
        case isFalse =>
          split at h
          case h_1 signature hget => exact hsealed (Or.inl h1) hget h
          case h_2 => cases h

/-- A document of version 1 without a signature passes, whatever the key. -/
theorem UnsignedLegacy.verify (h : UnsignedLegacy manifest) :
    verifyManifestSignature env secret manifest = .ok none := by
  obtain ⟨h2, h1, hget, halgorithm, hmode⟩ := h
  unfold verifyManifestSignature
  dsimp only
  rw [h2, if_neg Bool.false_ne_true, h1, if_pos rfl, hget]
  dsimp only
  rw [halgorithm, hmode, if_neg (by decide), if_neg (by decide)]

/-! ## Verification -/

/-- What follows the check of the signature. -/
theorem compared_eq_ok {signatureValid : Option Bool} {v : Verification}
    (h : (do
      let current ← buildArtifacts env backup.files
      let results ← verifyArtifacts env items current
      pure (Verification.mk (results.all (·.2)) results signatureValid (manifest.get "created_at"))) = Except.ok v) :
    ∃ current results, buildArtifacts env backup.files = .ok current ∧ verifyArtifacts env items current = .ok results ∧
      v.valid = results.all (·.2) := by
  cases hcurrent : buildArtifacts env backup.files with
  | error e =>
    rw [hcurrent] at h
    cases h
  | ok current =>
    rw [hcurrent] at h
    cases hresults : verifyArtifacts env items current with
    | error e =>
      replace h : (verifyArtifacts env items current >>= fun results =>
        pure (Verification.mk (results.all (·.2)) results signatureValid (manifest.get "created_at"))) = Except.ok v := h
      rw [hresults] at h
      cases h
    | ok results =>
      replace h : (verifyArtifacts env items current >>= fun results =>
        pure (Verification.mk (results.all (·.2)) results signatureValid (manifest.get "created_at"))) = Except.ok v := h
      rw [hresults] at h
      cases h
      exact ⟨current, results, rfl, hresults, rfl⟩

theorem verifyBackupManifest_valid (hkey : secret.key = some key) {v : Verification}
    (h : verifyBackupManifest env secret manifest backup = .ok v) (hvalid : v.valid = true) :
    (SealedWith env key manifest ∨ UnsignedLegacy manifest) ∧ Describes env manifest backup := by
  unfold verifyBackupManifest at h
  split at h
  case h_2 => cases h
  case h_1 items hitems =>
    split at h
    case isTrue => cases h
    case isFalse =>
      cases hsignature : verifyManifestSignature env secret manifest with
      | error e =>
        rw [hsignature] at h
        cases h
      | ok signatureValid =>
        rw [hsignature] at h
        have hdescribes : ∀ {sv : Option Bool}, (do
            let current ← buildArtifacts env backup.files
            let results ← verifyArtifacts env items current
            pure (Verification.mk (results.all (·.2)) results sv (manifest.get "created_at"))) = Except.ok v →
            Describes env manifest backup := by
          intro sv hdo
          obtain ⟨current, results, hcurrent, hresults, hall⟩ := compared_eq_ok hdo
          exact ⟨items, hitems, results_valid_iff.mp ⟨current, results, hcurrent, hresults, hall ▸ hvalid⟩⟩
        rcases verifyManifestSignature_eq_ok hkey hsignature with rfl | ⟨rfl, hsealed⟩ | ⟨rfl, hlegacy⟩
        · cases h
          cases hvalid
        · exact ⟨Or.inl hsealed, hdescribes h⟩
        · exact ⟨Or.inr hlegacy, hdescribes h⟩

/-- A document of version 1 without a signature is valid for the files that its entries describe. -/
theorem UnsignedLegacy.valid {secret : ResolvedSecret} (h : UnsignedLegacy manifest) (hdescribes : Describes env manifest backup) :
    ∃ v, verifyBackupManifest env secret manifest backup = .ok v ∧ v.valid = true ∧ v.manifestSignatureValid = none := by
  obtain ⟨items, hitems, hfiles⟩ := hdescribes
  obtain ⟨current, results, hcurrent, hresults, hall⟩ := results_valid_iff.mpr hfiles
  refine ⟨⟨results.all (·.2), results, none, manifest.get "created_at"⟩, ?_, hall, rfl⟩
  unfold verifyBackupManifest
  rw [hitems]
  dsimp only
  rw [h.2.1, Bool.true_or, if_neg (by decide), h.verify]
  dsimp only
  rw [hcurrent]
  change (verifyArtifacts env items current >>= fun results =>
    pure (Verification.mk (results.all (·.2)) results none (manifest.get "created_at"))) = _
  rw [hresults]
  rfl

/-! ## What a valid manifest says -/

theorem artifacts_not_signature : ∀ volatile ∈ [legacySignatureFields, v2SignatureFields], "artifacts" ∉ volatile := by decide

/-- Canonical bytes determine the entries, whatever the version leaves out of them. -/
theorem sameArtifacts_of_canonical {a b : Manifest} (h : canonicalManifest a = canonicalManifest b) : SameArtifacts a b := by
  have hout : ∀ m : Manifest, "artifacts" ∉ if isVersion m 1 then legacySignatureFields else v2SignatureFields := by
    intro m
    split <;> exact artifacts_not_signature _ (by simp)
  exact sortKeys_get_of_canonicalWithout_eq h (hout a) (hout b)

/-- A sealed manifest carries the signature of the key. -/
theorem sealManifest_sealedWith (hkey : secret.key = some key) {m sealed : Manifest}
    (h : sealManifest env secret m = .ok sealed) : SealedWith env key sealed ∧ SameArtifacts sealed m := by
  unfold sealManifest at h
  rw [resolved_of_key hkey] at h
  cases h
  have hversion : isVersion (((m.set "version" (.int 2) (distinct_int _)).set "manifest_signature_alg" (.str "hmac-sha256")
      (distinct_str _)).set "integrity_mode" (.str v2IntegrityMode) (distinct_str _)) 1 = false := by
    simp [isVersion, AuditEntry.get_set, Json.pyEq, Json.decimal?, Json.sameDecimal]
  have hcanonical : ∀ {x : Manifest} {v : Json} (hv : v.Distinct), isVersion x 1 = false →
      canonicalManifest (x.set "manifest_signature" v hv) = canonicalManifest x := by
    intro x v hv hx
    have hx' : isVersion (x.set "manifest_signature" v hv) 1 = false := by
      simpa [isVersion, AuditEntry.get_set] using hx
    rw [canonicalManifest, canonicalManifest, hx, hx', canonicalWithout_set hv (by decide)]
  refine ⟨⟨Or.inr ?_, ?_⟩, ?_⟩
  · simp [isVersion, AuditEntry.get_set, pyEq_int]
  · rw [hcanonical _ hversion, AuditEntry.get_set, if_pos rfl]
  · simp [SameArtifacts, AuditEntry.get_set]

/-- With the key configured, a document without it has the entries of a sealed manifest whenever verification reports it valid, exactly
if it is not an unsigned manifest of version 1 that describes the files. -/
theorem valid_manifest_sealed_iff (env : AuditEnv) {secret : ResolvedSecret} {key : String} (hkey : secret.key = some key)
    (manifest : Manifest) (backup : Backup) :
    (∀ issued : List Manifest, (∀ m ∈ issued, SealedWith env key m) → WithoutKey env key issued manifest →
        ∀ v, verifyBackupManifest env secret manifest backup = .ok v → v.valid = true → ∃ m ∈ issued, SameArtifacts manifest m) ↔
      ¬ (UnsignedLegacy manifest ∧ Describes env manifest backup) := by
  constructor
  · rintro h ⟨hlegacy, hdescribes⟩
    obtain ⟨v, hverify, hvalid, _⟩ := @UnsignedLegacy.valid env manifest backup secret hlegacy hdescribes
    have hwithout : WithoutKey env key [] manifest := by
      rintro ⟨_, hsignature⟩
      rw [hlegacy.2.2.1] at hsignature
      cases hsignature
    obtain ⟨m, hm, _⟩ := h [] (by simp) hwithout v hverify hvalid
    cases hm
  · intro h issued _ hwithout v hverify hvalid
    obtain ⟨hsealed | hlegacy, hdescribes⟩ := verifyBackupManifest_valid hkey hverify hvalid
    · obtain ⟨m, hm, hcanonical⟩ := hwithout hsealed
      exact ⟨m, hm, sameArtifacts_of_canonical hcanonical⟩
    · exact absurd ⟨hlegacy, hdescribes⟩ h

/-! ## A sealed manifest, and an edit of it -/

/-- The entries of a backup whose files have the given names. -/
def sampleItem (kind : String) (file : BackupFile) : Json :=
  .obj [("kind", .str kind), ("filename", .str file.name), ("size_bytes", .int file.content.length),
    ("sha256", .str (CampaignAudit.sampleEnv.sha.hex file.content))]

def sampleBackup (dump : String) : Backup where
  postgresDump := ⟨true, dump, [80, 71]⟩
  redisSnapshot := ⟨true, "dump.rdb", [82, 69, 68]⟩
  vaultCopy := ⟨true, "vault.json", [123, 125]⟩

def sampleItems (backup : Backup) : List Json := backup.files.map fun entry => sampleItem entry.1 entry.2

theorem sampleItems_distinct (dump : String) : (Json.arr (sampleItems (sampleBackup dump))).Distinct := by
  simp [sampleItems, sampleBackup, Backup.files, sampleItem, Json.Distinct, Json.DistinctElems, Json.DistinctFields]

/-- A manifest of version 1 as `build_backup_manifest` writes it. -/
def sampleManifest (dump : String) : Manifest :=
  (AuditEntry.set ⟨.empty, distinct_empty⟩ "version" (.int 1) (distinct_int _)).set "artifacts" (.arr (sampleItems (sampleBackup dump)))
    (sampleItems_distinct dump)

theorem get_empty (key : String) : AuditEntry.get ⟨.empty, distinct_empty⟩ key = .null := rfl

theorem sampleManifest_legacy (dump : String) : UnsignedLegacy (sampleManifest dump) := by
  refine ⟨?_, ?_, ?_, ?_, ?_⟩ <;>
    simp [sampleManifest, isVersion, isUnset, AuditEntry.get_set, get_empty, Json.pyEq, Json.decimal?, Json.sameDecimal]

theorem sampleManifest_describes (dump : String) :
    Describes CampaignAudit.sampleEnv (sampleManifest dump) (sampleBackup dump) := by
  refine ⟨sampleItems (sampleBackup dump), by simp [sampleManifest, AuditEntry.get_set], fun entry hentry => ?_⟩
  simp only [Backup.files, sampleBackup, List.mem_cons, List.not_mem_nil, or_false] at hentry
  rcases hentry with rfl | rfl | rfl
  · exact ⟨rfl, by simp, by simp, _, rfl, rfl, rfl, rfl⟩
  · exact ⟨rfl, by simp, by simp, _, rfl, rfl, rfl, rfl⟩
  · exact ⟨rfl, by simp, by simp, _, rfl, rfl, rfl, rfl⟩

theorem sample_entries_differ : ¬ SameArtifacts (sampleManifest "other.dump") (sampleManifest "pg.dump") := by
  intro h
  have htext := congrArg Json.dumps h
  simp only [sampleManifest, AuditEntry.get_set, if_pos] at htext
  exact absurd htext (by decide +kernel)

/-- Two dumps are of different names. -/
example : "other.dump" ≠ "pg.dump" := by decide +kernel

/-- An unsigned manifest of version 1 with other entries than the sealed one is reported valid, though the key is configured. -/
theorem downgraded_manifest_valid : ¬ ∀ (env : AuditEnv) (secret : ResolvedSecret) (key : String) (issued : List Manifest)
    (manifest : Manifest) (backup : Backup) (v : Verification), secret.key = some key → (∀ m ∈ issued, SealedWith env key m) →
      WithoutKey env key issued manifest → verifyBackupManifest env secret manifest backup = .ok v → v.valid = true →
      ∃ m ∈ issued, SameArtifacts manifest m := by
  intro h
  have hkey : ResolvedSecret.key (.ok (some "audit-key")) = some "audit-key" := rfl
  obtain ⟨sealed, hseal⟩ : ∃ sealed,
      sealManifest CampaignAudit.sampleEnv (.ok (some "audit-key")) (sampleManifest "pg.dump") = .ok sealed := ⟨_, rfl⟩
  obtain ⟨hsealed, hsame⟩ := sealManifest_sealedWith hkey hseal
  have hlegacy := sampleManifest_legacy "other.dump"
  obtain ⟨v, hverify, hvalid, _⟩ := @UnsignedLegacy.valid _ _ _ (.ok (some "audit-key")) hlegacy (sampleManifest_describes "other.dump")
  have hwithout : WithoutKey CampaignAudit.sampleEnv "audit-key" [sealed] (sampleManifest "other.dump") := by
    rintro ⟨_, hsignature⟩
    rw [hlegacy.2.2.1] at hsignature
    cases hsignature
  obtain ⟨m, hm, hentries⟩ := h CampaignAudit.sampleEnv _ "audit-key" [sealed] _ _ v hkey (by simpa using hsealed) hwithout hverify hvalid
  rw [List.mem_singleton.mp hm] at hentries
  exact sample_entries_differ (hentries.trans hsame)

/-- The theorem at the edited manifest, which fails, and at the sealed one, which no unsigned manifest is. -/
theorem valid_manifest_sample :
    ¬ (∀ issued : List Manifest, (∀ m ∈ issued, SealedWith CampaignAudit.sampleEnv "audit-key" m) →
        WithoutKey CampaignAudit.sampleEnv "audit-key" issued (sampleManifest "other.dump") →
        ∀ v, verifyBackupManifest CampaignAudit.sampleEnv (.ok (some "audit-key")) (sampleManifest "other.dump")
          (sampleBackup "other.dump") = .ok v → v.valid = true → ∃ m ∈ issued, SameArtifacts (sampleManifest "other.dump") m) := by
  rw [@valid_manifest_sealed_iff CampaignAudit.sampleEnv (.ok (some "audit-key")) "audit-key" rfl, not_not]
  exact ⟨sampleManifest_legacy _, sampleManifest_describes _⟩

end BackupManifest

end XbowPerso
