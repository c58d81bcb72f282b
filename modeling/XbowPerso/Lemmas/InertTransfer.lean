import XbowPerso.InertTransfer
import XbowPerso.Theorems.PlanAgreement

/-!
# The files of a built plan and how the broker cuts them

From the canonical text of a built plan the runner reads the files that the builder has put into it: their paths, digests and sizes.
The offsets of a file cut it into chunks that follow each other: before each chunk the broker has sent the bytes below its offset,
the last chunk is the only final one, and after it everything is sent.
-/

namespace XbowPerso

namespace ManifestAdmission

open RunnerRpc

variable {sha : Sha256}

/-- The path, the digest and the size of an entry that is a file. -/
def EntryPlan.file? (e : EntryPlan) : Option (String × String × Nat) :=
  if e.kind = "file" then some (e.path, e.contentSha256.getD "", e.contentBytes.getD 0) else none

/-- The runner reads an entry of a built plan as it was built. -/
theorem planFile?_toDict {e : EntryPlan} (h : EntryShape sha e) : planFile? (Json.obj e.toDict).sortKeys = e.file? := by
  rw [Json.sortKeys_obj]
  have hd := reads_sortKeys (nodup_keys_toDict e)
  generalize Json.sortFields (Json.sortKeysFields e.toDict) = d at hd
  cases h with
  | @file path content hpath hlen =>
    have hkind : item d "kind" = .str "file" := hd.item _
    have hpath' : item d "path" = .str path := hd.item _
    have hdigest : item d "content_sha256" = .str (sha.hex content) := hd.item _
    have hbytes : item d "content_bytes" = .int content.length := hd.item _
    rw [planFile?, hkind, hpath', hdigest, hbytes, if_pos (by decide)]
    rfl
  | localDir hpath =>
    have hkind : item d "kind" = .str "local_dir" := hd.item _
    rw [planFile?, hkind, if_neg (by decide)]
    rfl

/-- The entries that the runner reads. -/
theorem planEntries_canonicalJson {manifest : Manifest} {plan : AdmissionPlan}
    (h : buildStrixManifestAdmissionPlan sha manifest = .ok plan) :
    RunnerRpc.planEntries plan.canonicalJson = plan.entries.map fun e => (Json.obj e.toDict).sortKeys := by
  obtain ⟨hversion, hroot, -, -, htext, -, -⟩ := build_eq_ok h
  rw [eq_str_of_pyEq hroot] at htext
  obtain ⟨d, hloads, -, hd⟩ := loads_canonicalPayload _ (.str "/workspace") (scalar_of_pyEq hversion).1 trivial plan.entries
    plan.environment
  have hentries : item d "entries" = (Json.arr (plan.entries.map fun e => .obj e.toDict)).sortKeys := hd.item _
  rw [RunnerRpc.planEntries, htext, hloads]
  dsimp only
  rw [hentries, Json.sortKeys, Json.sortKeysElems_eq, List.map_map]
  rfl

/-- The proofs that a session starts with. -/
theorem fileProofs_canonicalJson {manifest : Manifest} {plan : AdmissionPlan}
    (h : buildStrixManifestAdmissionPlan sha manifest = .ok plan) :
    fileProofs plan.canonicalJson =
      Dict.ofList ((plan.entries.filterMap EntryPlan.file?).map fun f => (f.1, InertFileProof.start f.2.1 f.2.2)) := by
  obtain ⟨-, -, hentries, -⟩ := build_eq_ok h
  obtain ⟨-, -, -, -, -, planned⟩ := planEntries_eq_ok hentries
  have hfiles : (plan.entries.map fun e => (Json.obj e.toDict).sortKeys).filterMap planFile? =
      plan.entries.filterMap EntryPlan.file? := by
    rw [List.filterMap_map]
    refine List.filterMap_congr fun e he => ?_
    rw [Function.comp_apply]
    exact planFile?_toDict (planned.shape e he)
  rw [fileProofs, planEntries_canonicalJson h, hfiles]

end ManifestAdmission

namespace InertTransfer

open RunnerRpc (maxFileChunkBytes)

/-- The offsets that are left cut the rest of the file, of which a part is sent. -/
def Cuts (data : List UInt8) : List UInt8 → List Nat → Prop
  | sent, [] => sent = data
  | sent, offset :: rest => sent = data.take offset ∧ offset ≤ data.length ∧ (isFinal data offset = true ↔ rest = []) ∧
      (chunkAt data offset ≠ [] ∨ data = []) ∧ Cuts data (sent ++ chunkAt data offset) rest

theorem length_chunkAt (data : List UInt8) (offset : Nat) :
    (chunkAt data offset).length = min maxFileChunkBytes (data.length - offset) := by
  rw [chunkAt, List.length_take, List.length_drop]

theorem take_append_chunkAt (data : List UInt8) (offset : Nat) :
    data.take offset ++ chunkAt data offset = data.take (offset + maxFileChunkBytes) := by
  rw [List.take_add]
  rfl

/-- The offsets from the `k`-th chunk on. -/
theorem cuts_from (data : List UInt8) {k m : Nat} (hlow : ∀ j, j < k + m → j * maxFileChunkBytes < data.length)
    (hhigh : data.length ≤ (k + m) * maxFileChunkBytes) :
    Cuts data (data.take (k * maxFileChunkBytes)) ((List.range' k m).map (· * maxFileChunkBytes)) := by
  have hpos : maxFileChunkBytes = 65536 := rfl
  induction m generalizing k with
  | zero => exact List.take_of_length_le hhigh
  | succ m ih =>
    have hk := hlow k (by omega)
    rw [List.range'_succ, List.map_cons]
    refine ⟨rfl, hk.le, ?_, ?_, ?_⟩
    · rw [isFinal, decide_eq_true_eq, length_chunkAt, List.map_eq_nil_iff, List.range'_eq_nil_iff]
      constructor
      · intro hfinal
        by_contra hm
        have hnext := hlow (k + 1) (by omega)
        rw [Nat.add_mul] at hnext
        omega
      · rintro rfl
        have hend := hhigh
        rw [Nat.zero_add, Nat.add_mul] at hend
        omega
    · left
      intro hempty
      have hlength := length_chunkAt data (k * maxFileChunkBytes)
      rw [hempty, List.length_nil] at hlength
      omega
    · rw [take_append_chunkAt, ← Nat.succ_mul]
      exact ih (fun j hj => hlow j (by omega)) (by rwa [Nat.succ_add, ← Nat.add_succ])

/-- The offsets of a file cut it. -/
theorem cuts_offsets (data : List UInt8) : Cuts data [] (offsets data) := by
  have hpos : maxFileChunkBytes = 65536 := rfl
  unfold offsets
  split
  · rename_i hempty
    subst hempty
    exact ⟨rfl, le_refl 0, by simp [isFinal, chunkAt], .inr rfl, rfl⟩
  · rename_i hne
    have hlength : 0 < data.length := List.length_pos_iff.mpr hne
    have hcuts := cuts_from data (k := 0) (m := (data.length + maxFileChunkBytes - 1) / maxFileChunkBytes)
      (fun j hj => by rw [hpos] at *; omega) (by rw [hpos]; omega)
    rw [Nat.zero_mul, List.take_zero, ← List.range_eq_range'] at hcuts
    exact hcuts

theorem offsets_ne_nil (data : List UInt8) : offsets data ≠ [] := by
  have hpos : maxFileChunkBytes = 65536 := rfl
  unfold offsets
  split
  · simp
  · rename_i hne
    have hlength : 0 < data.length := List.length_pos_iff.mpr hne
    rw [hpos, Ne, List.map_eq_nil_iff, List.range_eq_nil]
    omega

/-! ## The plan -/

variable {files : Option Files} {text : String}

/-- A mapping that is accepted, and its plan. -/
theorem canonicalPlan_eq_ok {sha : Sha256} {plan : ManifestAdmission.AdmissionPlan}
    (h : canonicalPlan sha files = .ok (text, plan)) :
    ∃ mapping, files = some mapping ∧ checkFiles 0 mapping.entries = .ok () ∧
      ManifestAdmission.buildStrixManifestAdmissionPlan sha (manifestOf mapping) = .ok plan ∧ text = plan.canonicalJson ∧
      plan.manifestDigest = sha.hex (utf8 text) ∧ (utf8 text).length ≤ maxCanonicalBytes := by
  unfold canonicalPlan at h
  split at h
  · cases h
  rename_i mapping
  obtain ⟨built, hbuilt⟩ : ∃ built, ManifestAdmission.buildStrixManifestAdmissionPlan sha (manifestOf mapping) = built := ⟨_, rfl⟩
  rw [hbuilt] at h
  split at h
  · cases h
  split at h
  · cases h
  rename_i hfiles
  split at h
  · cases h
  rename_i plan'
  split at h
  · cases h
  rename_i hdigest
  split at h
  · cases h
  rename_i hsize
  obtain ⟨rfl, rfl⟩ := Prod.mk.inj (Except.ok.inj h)
  exact ⟨mapping, rfl, hfiles, hbuilt, rfl, (not_not.mp hdigest).symm, not_lt.mp hsize⟩

/-! ## The files and the entries of their plan -/

open ManifestAdmission (AdmissionPlan EntryPlan Entry filePlan normalizeEntryPath normalizeText planEntryItems PlanPath PlannedEntries)

/-- The entry that a file of a mapping has in the plan. -/
def Plans (sha : Sha256) (file : PyKey × Option (List UInt8)) (entry : EntryPlan) : Prop :=
  ∃ data, file.2 = some data ∧ normalizeEntryPath file.1 = .ok entry.path ∧ entry = filePlan sha entry.path data

/-- The loop of the builder over files only. -/
theorem planEntryItems_files {sha : Sha256} {files : List (PyKey × Option (List UInt8))} {planned out : List EntryPlan} {total : Nat}
    (h : planEntryItems sha planned total (files.map fun e => (e.1, (⟨some "file", e.2, none⟩ : Entry))) = .ok out) :
    ∃ added, out = planned ++ added ∧ List.Forall₂ (Plans sha) files added := by
  induction files generalizing planned total with
  | nil =>
    cases h
    exact ⟨[], by simp, .nil⟩
  | cons file files ih =>
    rw [List.map_cons, planEntryItems] at h
    split at h
    · cases h
    rename_i path hpath
    split at h
    · cases h
    split at h
    · cases h
    rename_i kind hkind
    have hfile : kind = "file" := by
      cases hkind
      rfl
    rw [if_pos hfile] at h
    split at h
    · cases h
    rename_i e he
    obtain ⟨data, hdata, -, rfl⟩ := ManifestAdmission.planFile_eq_ok he
    split at h
    · cases h
    obtain ⟨added, rfl, hadded⟩ := ih h
    exact ⟨filePlan sha path data :: added, by simp, .cons ⟨data, hdata, hpath, rfl⟩ hadded⟩

variable {entries : List EntryPlan}

theorem plans_of_file {sha : Sha256} {files : List (PyKey × Option (List UInt8))}
    (h : List.Forall₂ (Plans sha) files entries) {file : PyKey × Option (List UInt8)} (hfile : file ∈ files) :
    ∃ e ∈ entries, Plans sha file e := by
  induction h with
  | nil => cases hfile
  | @cons first e files entries hfirst hrest ih =>
    rcases List.mem_cons.mp hfile with rfl | hfile
    · exact ⟨e, List.mem_cons_self, hfirst⟩
    · obtain ⟨e', he', hplans⟩ := ih hfile
      exact ⟨e', List.mem_cons_of_mem _ he', hplans⟩

theorem plans_of_entry {sha : Sha256} {files : List (PyKey × Option (List UInt8))}
    (h : List.Forall₂ (Plans sha) files entries) {e : EntryPlan} (he : e ∈ entries) : ∃ file ∈ files, Plans sha file e := by
  induction h with
  | nil => cases he
  | @cons first e' files entries hfirst hrest ih =>
    rcases List.mem_cons.mp he with rfl | he
    · exact ⟨first, List.mem_cons_self, hfirst⟩
    · obtain ⟨file, hfile, hplans⟩ := ih he
      exact ⟨file, List.mem_cons_of_mem _ hfile, hplans⟩

/-- Two files of a mapping whose entries have different paths have different paths. -/
theorem eq_of_normalizeEntryPath {sha : Sha256} {files : List (PyKey × Option (List UInt8))}
    (h : List.Forall₂ (Plans sha) files entries) (hnodup : (entries.map (·.path)).Nodup) {a b : PyKey × Option (List UInt8)}
    (ha : a ∈ files) (hb : b ∈ files) (hab : normalizeEntryPath a.1 = normalizeEntryPath b.1) : a = b := by
  induction h with
  | nil => cases ha
  | @cons file entry files entries hfirst hrest ih =>
    obtain ⟨hnew, hnodup⟩ := List.nodup_cons.mp hnodup
    have hother : ∀ c ∈ files, normalizeEntryPath c.1 ≠ normalizeEntryPath file.1 := by
      intro c hc heq
      obtain ⟨data, -, hpath, -⟩ := hfirst
      obtain ⟨e, he, hplans⟩ : ∃ e ∈ entries, Plans sha c e := plans_of_file hrest hc
      obtain ⟨-, -, hpath', -⟩ := hplans
      rw [heq, hpath] at hpath'
      exact hnew (List.mem_map.mpr ⟨e, he, (Except.ok.inj hpath').symm⟩)
    rcases List.mem_cons.mp ha with rfl | ha'
    · rcases List.mem_cons.mp hb with rfl | hb'
      · rfl
      · exact absurd hab.symm (hother b hb')
    · rcases List.mem_cons.mp hb with rfl | hb'
      · exact absurd hab (hother a ha')
      · exact ih hnodup ha' hb'

/-- The files of a mapping that is accepted are texts and bytes. -/
theorem checkFiles_eq_ok {files : List (PyKey × Option (List UInt8))} {total : Nat} (h : checkFiles total files = .ok ()) :
    ∀ file ∈ files, ∃ key data, file = (.str key, some data) := by
  induction files generalizing total with
  | nil => simp
  | cons first files ih =>
    obtain ⟨path, data⟩ := first
    cases path with
    | str key =>
      cases data with
      | none => cases h
      | some data =>
        rw [checkFiles] at h
        split at h
        · cases h
        split at h
        · cases h
        intro file hfile
        rcases List.mem_cons.mp hfile with rfl | hfile
        · exact ⟨_, _, rfl⟩
        · exact ih h file hfile
    | path posix => cases h
    | other identity => cases h

/-- A key that ends with a slash. -/
def endsWithSlash : PyKey → Bool
  | .str (.text s) => decide (s.toList.getLast? = some '/')
  | _ => false

/-- A key and the path that it is normalised to: they are the same text, unless the key ends with a slash. -/
theorem key_of_normalizeEntryPath {key : PyStr} {p : String} (h : normalizeEntryPath (.str key) = .ok p) :
    ∃ raw, key = .text raw ∧ (endsWithSlash (.str key) = false → raw = p) ∧ (endsWithSlash (.str key) = true → raw ≠ p) := by
  have hclean := (ManifestAdmission.planPath_of_normalizeEntryPath h).clean
  unfold normalizeEntryPath normalizeText at h
  dsimp only at h
  split at h
  · cases h
  rename_i raw hraw
  obtain ⟨rfl, -⟩ := ManifestAdmission.safeText_eq_ok hraw
  obtain ⟨-, -, n, hn⟩ := ManifestAdmission.normalizeRaw_eq_ok h
  refine ⟨raw, rfl, fun hends => ?_, fun hends hsame => ?_⟩
  · cases n with
    | zero =>
      rw [List.replicate_zero, List.append_nil] at hn
      exact String.toList_inj.mp hn
    | succ n =>
      rw [endsWithSlash, decide_eq_false_iff_not, hn, List.replicate_succ', ← List.append_assoc, List.getLast?_concat] at hends
      exact absurd rfl hends
  · rw [endsWithSlash, decide_eq_true_eq, hsame] at hends
    exact ManifestAdmission.getLast?_ne_slash hclean hends

variable {plan : AdmissionPlan}

/-- What the plan of a mapping that is accepted has for its entries. -/
theorem plans_of_canonicalPlan {sha : Sha256}
    (h : canonicalPlan sha files = .ok (text, plan)) :
    ∃ mapping entries, files = some mapping ∧ List.Forall₂ (Plans sha) mapping.entries entries ∧ entries.Perm plan.entries ∧
      PlannedEntries sha plan.entries ∧ ∀ file ∈ mapping.entries, ∃ key data, file = (.str key, some data) := by
  obtain ⟨mapping, rfl, hfiles, hbuild, -⟩ := canonicalPlan_eq_ok h
  obtain ⟨items, planned, hitems, hloop, hperm, hplanned⟩ := ManifestAdmission.planEntries_eq_ok
    (ManifestAdmission.build_eq_ok hbuild).2.2.1
  cases Option.some.inj hitems
  obtain ⟨added, hadded, hforall⟩ := planEntryItems_files hloop
  rw [List.nil_append] at hadded
  subst hadded
  exact ⟨mapping, planned, rfl, hforall, hperm, hplanned, checkFiles_eq_ok hfiles⟩

/-- The content that the transfer finds for a file of an accepted mapping: its own, unless its key ends with a slash. -/
theorem fileContent_of_plans {sha : Sha256} {mapping : Files}
    (hforall : List.Forall₂ (Plans sha) mapping.entries entries) (hnodup : (entries.map (·.path)).Nodup)
    (htexts : ∀ file ∈ mapping.entries, ∃ key data, file = (.str key, some data)) {file : PyKey × Option (List UInt8)}
    (hfile : file ∈ mapping.entries) {entry : EntryPlan} (hplans : Plans sha file entry) :
    (endsWithSlash file.1 = false →
      ∃ data, fileContent (some mapping) entry.path = .ok data ∧ entry = filePlan sha entry.path data) ∧
      (endsWithSlash file.1 = true → fileContent (some mapping) entry.path = .error (.keyError entry.path)) := by
  obtain ⟨data, hdata, hpath, heq⟩ := hplans
  obtain ⟨key, found, rfl⟩ := htexts file hfile
  cases hdata
  obtain ⟨raw, rfl, hsame, hother⟩ := key_of_normalizeEntryPath hpath
  constructor
  · intro hends
    refine ⟨data, ?_, heq⟩
    rw [fileContent, Option.bind_some, ← hsame hends, Dict.mem_entries.mp hfile]
  · intro hends
    rw [fileContent, Option.bind_some]
    cases hget : mapping.get? (.str (.text entry.path)) with
    | none => rfl
    | some value =>
      have hmem := Dict.mem_entries.mpr hget
      obtain ⟨e, -, -, -, hpath', -⟩ := plans_of_file hforall hmem
      obtain ⟨raw', hraw', hsame', -⟩ := key_of_normalizeEntryPath hpath'
      have hopen : endsWithSlash (.str (.text entry.path)) = false := by
        rw [endsWithSlash, decide_eq_false_iff_not]
        exact ManifestAdmission.getLast?_ne_slash (ManifestAdmission.planPath_of_normalizeEntryPath hpath).clean
      have hpaths : entry.path = e.path := by
        cases hraw'
        exact hsame' hopen
      rw [← hpaths] at hpath'
      have heq' := eq_of_normalizeEntryPath hforall hnodup hmem hfile (hpath'.trans hpath.symm)
      cases heq'
      exact absurd rfl (hother hends)

/-- A key of the mapping ends with a slash. -/
def HasSlashKey (files : Option Files) : Prop := ∃ mapping, files = some mapping ∧ ∃ key ∈ mapping.keys, endsWithSlash key = true

/-- The content that the transfer finds for an entry of the plan. -/
theorem fileContent_cases {sha : Sha256}
    (h : canonicalPlan sha files = .ok (text, plan)) {entry : EntryPlan} (hentry : entry ∈ plan.entries) :
    (∃ data, fileContent files entry.path = .ok data ∧ entry = filePlan sha entry.path data) ∨
      (fileContent files entry.path = .error (.keyError entry.path) ∧ HasSlashKey files) := by
  obtain ⟨mapping, entries, rfl, hforall, hperm, hplanned, htexts⟩ := plans_of_canonicalPlan h
  have hnodup : (entries.map (·.path)).Nodup := (hperm.map _).nodup_iff.mpr hplanned.nodup
  obtain ⟨file, hfile, hplans⟩ := plans_of_entry hforall (hperm.mem_iff.mpr hentry)
  obtain ⟨hopen, hslash⟩ := fileContent_of_plans hforall hnodup htexts hfile hplans
  cases hends : endsWithSlash file.1 with
  | false => exact .inl (hopen hends)
  | true => exact .inr ⟨hslash hends, mapping, rfl, file.1, List.mem_map_of_mem hfile, hends⟩

/-- A key that ends with a slash has an entry whose content the transfer does not find. -/
theorem exists_keyError {sha : Sha256}
    (h : canonicalPlan sha files = .ok (text, plan)) (hslash : HasSlashKey files) :
    ∃ entry ∈ plan.entries, fileContent files entry.path = .error (.keyError entry.path) := by
  obtain ⟨mapping, entries, rfl, hforall, hperm, hplanned, htexts⟩ := plans_of_canonicalPlan h
  have hnodup : (entries.map (·.path)).Nodup := (hperm.map _).nodup_iff.mpr hplanned.nodup
  obtain ⟨found, hfound, key, hkey, hends⟩ := hslash
  cases hfound
  obtain ⟨data, hmem⟩ := Dict.mem_keys.mp hkey
  obtain ⟨entry, hentry, hplans⟩ := plans_of_file hforall hmem
  exact ⟨entry, hperm.mem_iff.mp hentry, (fileContent_of_plans hforall hnodup htexts hmem hplans).2 hends⟩

/-- Every entry of the plan is a file. -/
theorem kind_of_canonicalPlan {sha : Sha256}
    (h : canonicalPlan sha files = .ok (text, plan)) {entry : EntryPlan} (hentry : entry ∈ plan.entries) :
    ∃ data, entry = filePlan sha entry.path data := by
  obtain ⟨mapping, entries, rfl, hforall, hperm, -⟩ := plans_of_canonicalPlan h
  obtain ⟨file, -, data, -, -, heq⟩ := plans_of_entry hforall (hperm.mem_iff.mpr hentry)
  exact ⟨data, heq⟩

end InertTransfer

end XbowPerso
