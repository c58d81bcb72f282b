import XbowPerso.RunnerPlan
import XbowPerso.Lib.JsonSize
import Mathlib.Tactic.Linarith

/-!
# What the builder of a plan writes and what the runner reads

A plan entry has one of two shapes, with a clean path. The builder writes only such entries, each path once and none below another;
the runner reads an entry back from its dictionary whatever the order of the keys.
-/

namespace XbowPerso

open RunnerRpc (isPlanPath exactKeys item checkEntry checkEntries checkEnvironment PlanTotals JsonDict isHexOfLength)

/-! ## Values of a dictionary with sorted keys -/

namespace RunnerRpc

variable {d : JsonDict}

theorem lookup_eq_some_iff (h : (d.map (·.1)).Nodup) {k : String} {v : Json} :
    d.lookup k = some v ↔ (k, v) ∈ d := by
  induction d with
  | nil => simp
  | cons f d ih =>
    obtain ⟨k', v'⟩ := f
    obtain ⟨hnot, hrest⟩ := List.nodup_cons.mp h
    by_cases hk : k = k'
    · subst hk
      have hmem : (k, v) ∉ d := fun hmem => hnot (List.mem_map.mpr ⟨_, hmem, rfl⟩)
      simp [hmem, eq_comm]
    · have hbeq : (k == k') = false := by simpa using hk
      simp [List.lookup_cons, hbeq, ih hrest, hk]

/-- Sorting the keys of a dictionary changes what a key finds only by sorting the keys of the value. -/
theorem item_sortKeys (h : (d.map (·.1)).Nodup) (k : String) :
    item (Json.sortFields (Json.sortKeysFields d)) k = (item d k).sortKeys := by
  have hkeys : ((Json.sortKeysFields d).map (·.1)).Nodup := by
    rw [Json.sortKeysFields_eq, List.map_map]
    exact h
  have hperm := Json.sortFields_perm (Json.sortKeysFields d)
  have hsorted : ((Json.sortFields (Json.sortKeysFields d)).map (·.1)).Nodup := (hperm.map _).nodup_iff.mpr hkeys
  have hlookup : (Json.sortFields (Json.sortKeysFields d)).lookup k = (d.lookup k).map Json.sortKeys := by
    refine Option.ext fun v => ?_
    rw [lookup_eq_some_iff hsorted, hperm.mem_iff, Json.sortKeysFields_eq, List.mem_map, Option.map_eq_some_iff]
    constructor
    · rintro ⟨f, hf, heq⟩
      obtain ⟨rfl, rfl⟩ := Prod.mk.inj heq
      exact ⟨f.2, (lookup_eq_some_iff h).mpr hf, rfl⟩
    · rintro ⟨w, hw, rfl⟩
      exact ⟨(k, w), (lookup_eq_some_iff h).mp hw, rfl⟩
  rw [item, hlookup, item]
  cases d.lookup k <;> rfl

theorem exactKeys_sortKeys (d : JsonDict) (keys : List String) :
    exactKeys (Json.sortFields (Json.sortKeysFields d)) keys = exactKeys d keys := by
  have hmem : ∀ k, k ∈ (Json.sortFields (Json.sortKeysFields d)).map (·.1) ↔ k ∈ d.map (·.1) := by
    intro k
    have hperm := (Json.sortFields_perm (Json.sortKeysFields d)).map (·.1)
    rw [hperm.mem_iff, Json.sortKeysFields_eq, List.map_map]
    rfl
  have hall : ∀ (d : JsonDict), d.all (fun f => decide (f.1 ∈ keys)) = (d.map (·.1)).all (fun k => decide (k ∈ keys)) := by
    intro d
    rw [List.all_map]
    rfl
  rw [Bool.eq_iff_iff]
  simp only [exactKeys, hall, Bool.and_eq_true, List.all_eq_true, decide_eq_true_eq, hmem]

theorem exactKeys_of_keys {keys : List String} (h : d.map (·.1) = keys) : exactKeys d keys = true := by
  subst h
  simp only [exactKeys, Bool.and_eq_true, List.all_eq_true, decide_eq_true_eq, imp_self, implies_true, and_true]
  exact fun f hf => List.mem_map_of_mem hf

/-- A dictionary with the keys of another one and its values, in whatever order. -/
structure Reads (d fields : JsonDict) : Prop where
  keys : exactKeys d (fields.map (·.1)) = true
  item : ∀ k, item d k = (item fields k).sortKeys

theorem reads_sortKeys {fields : JsonDict} (h : (fields.map (·.1)).Nodup) :
    Reads (Json.sortFields (Json.sortKeysFields fields)) fields :=
  ⟨by rw [exactKeys_sortKeys]; exact exactKeys_of_keys rfl, item_sortKeys h⟩

end RunnerRpc

namespace ManifestAdmission

/-! ## Paths -/

/-- What a path is that the builder has normalised. -/
structure PlanPath (p : String) : Prop where
  notEmpty : p ≠ ""
  clean : PosixPath.Clean p.toList
  length_le : p.length ≤ maxEntryPathBytes
  size_le : p.utf8ByteSize ≤ maxEntryPathBytes
  noControl : p.toList.any isControl = false
  noBackslash : '\\' ∉ p.toList

theorem head?_ne_slash {cs : List Char} (h : PosixPath.Clean cs) : cs.head? ≠ some '/' := by
  intro hc
  obtain ⟨rest, rfl⟩ := List.head?_eq_some_iff.mp hc
  have hseg : PosixPath.segments ([] ++ '/' :: rest) = PosixPath.segments [] ++ PosixPath.segments rest :=
    PosixPath.segments_append [] rest
  have hempty := h [] (by rw [← List.nil_append ('/' :: rest), hseg]; simp [PosixPath.segments])
  simp [PosixPath.isDots] at hempty

theorem getLast?_ne_slash {cs : List Char} (h : PosixPath.Clean cs) : cs.getLast? ≠ some '/' := by
  intro hc
  obtain ⟨front, rfl⟩ := List.getLast?_eq_some_iff.mp hc
  have hempty := h [] (by rw [PosixPath.segments_append front []]; simp [PosixPath.segments])
  simp [PosixPath.isDots] at hempty

variable {p : String}

/-- The runner takes the paths that the builder writes. -/
theorem PlanPath.isPlanPath (h : PlanPath p) : isPlanPath p = true := by
  have hseg : (PosixPath.segments p.toList).any PosixPath.isDots = false := by
    rw [List.any_eq_false]
    intro s hs
    rw [h.clean s hs]
    exact Bool.false_ne_true
  have hlen : p.length ≤ 512 := h.length_le
  have hsize : p.utf8ByteSize ≤ 512 := h.size_le
  simp only [RunnerRpc.isPlanPath, h.notEmpty, hlen, hsize, head?_ne_slash h.clean, getLast?_ne_slash h.clean, h.noBackslash,
    hseg, h.noControl, ne_eq, not_false_eq_true, decide_true, Bool.not_false, Bool.and_self]

/-- And a path that the runner takes is one of them. -/
theorem planPath_of_isPlanPath (h : isPlanPath p = true) : PlanPath p := by
  simp only [RunnerRpc.isPlanPath, Bool.and_eq_true, decide_eq_true_eq, Bool.not_eq_true', List.any_eq_false] at h
  obtain ⟨⟨⟨⟨⟨⟨⟨hne, hlen⟩, -⟩, -⟩, hback⟩, hseg⟩, hcontrol⟩, hsize⟩ := h
  refine ⟨hne, fun s hs => by simpa using hseg s hs, hlen, hsize, ?_, hback⟩
  exact List.any_eq_false.mpr hcontrol

variable {s : String}

/-- A text that passes `_safe_text`. -/
theorem safeText_eq_ok {value : PyStr} {name : String} {limit : Nat} (h : safeText value name limit = .ok s) :
    value = .text s ∧ s ≠ "" ∧ s.length ≤ limit ∧ s.utf8ByteSize ≤ limit ∧ s.toList.any isControl = false := by
  unfold safeText at h
  split at h
  · cases h
  split at h
  · cases h
  rename_i hlen
  split at h
  · cases h
  rename_i hsize
  cases h
  rw [not_or] at hlen hsize
  exact ⟨rfl, hlen.1, not_lt.mp hlen.2, not_lt.mp hsize.1, by simpa using hsize.2⟩

/-- What the normalisation of a path accepts: a clean path, perhaps with slashes at its end, which it drops. -/
theorem normalizeRaw_eq_ok {raw : String} (h : normalizeRaw raw = .ok p) :
    PosixPath.Clean p.toList ∧ '\\' ∉ raw.toList ∧ ∃ n, raw.toList = p.toList ++ List.replicate n '/' := by
  unfold normalizeRaw at h
  split at h
  · cases h
  rename_i hback
  split at h
  · cases h
  rename_i habs
  split at h
  · cases h
  rename_i hparts
  cases h
  rw [not_or, not_or, not_not, Bool.not_eq_true, List.any_eq_false] at hparts
  obtain ⟨hne, hdots, hstrip⟩ := hparts
  have htext : pureText raw.toList = PosixPath.join (PosixPath.pureParts raw.toList) := if_neg hne
  have hslash : ∀ s ∈ PosixPath.pureParts raw.toList, '/' ∉ s := by
    intro s hs
    exact PosixPath.slash_not_mem_segment (List.mem_filter.mp hs).1
  rw [String.toList_ofList]
  refine ⟨?_, hback, ?_⟩
  · intro s hs
    rw [htext, PosixPath.segments_join hslash hne] at hs
    simpa using hdots s hs
  · rw [hstrip]
    exact PosixPath.eq_stripSlashes_append habs

/-- A text that the builder has normalised. -/
theorem planPath_of_normalizeText {s : PyStr} (h : normalizeText s = .ok p) : PlanPath p := by
  unfold normalizeText at h
  split at h
  · cases h
  rename_i raw hraw
  obtain ⟨-, -, hlen, hsize, hcontrol⟩ := safeText_eq_ok hraw
  obtain ⟨hclean, hback, n, hn⟩ := normalizeRaw_eq_ok h
  have hfront : p.toList <+: raw.toList := ⟨_, hn.symm⟩
  refine ⟨?_, hclean, ?_, ?_, ?_, fun hb => hback (hfront.subset hb)⟩
  · rintro rfl
    have hempty := hclean [] (by simp [PosixPath.segments])
    simp [PosixPath.isDots] at hempty
  · rw [← String.length_toList] at hlen ⊢
    exact hfront.length_le.trans hlen
  · rw [Json.utf8ByteSize_eq, hn, Json.byteLength_append] at hsize
    rw [Json.utf8ByteSize_eq]
    exact (Nat.le_add_right _ _).trans hsize
  · rw [List.any_eq_false] at hcontrol ⊢
    exact fun c hc => hcontrol c (hfront.subset hc)

theorem planPath_of_normalizeEntryPath {key : PyKey} (h : normalizeEntryPath key = .ok p) : PlanPath p := by
  cases key with
  | str s => exact planPath_of_normalizeText h
  | path s => exact planPath_of_normalizeText h
  | other => cases h

/-! ## Entries -/

/-- The shapes of a plan entry. -/
inductive EntryShape (sha : Sha256) : EntryPlan → Prop
  | file {path : String} {content : List UInt8} (hpath : PlanPath path) (hlen : content.length ≤ maxInlineFileBytes) :
    EntryShape sha (filePlan sha path content)
  | localDir {path sourceText : String} (hpath : PlanPath path) : EntryShape sha (localDirPlan sha path sourceText)

variable {e : EntryPlan}

theorem EntryShape.path {sha : Sha256} (h : EntryShape sha e) : PlanPath e.path := by
  cases h with
  | file hpath => exact hpath
  | localDir hpath => exact hpath

/-- What the loop of the builder keeps. -/
structure Planned (sha : Sha256) (entries : List EntryPlan) : Prop where
  shape : ∀ e ∈ entries, EntryShape sha e
  nodup : (entries.map (·.path)).Nodup
  bytes_le : fileBytes entries ≤ maxTotalInlineFileBytes

theorem fileBytes_append (as bs : List EntryPlan) : fileBytes (as ++ bs) = fileBytes as + fileBytes bs := by
  simp [fileBytes]

/-- One entry more. -/
theorem Planned.concat {sha : Sha256} {planned : List EntryPlan} (h : Planned sha planned)
    (hshape : EntryShape sha e) (hnew : e.path ∉ planned.map (·.path))
    (hbytes : fileBytes (planned ++ [e]) ≤ maxTotalInlineFileBytes) : Planned sha (planned ++ [e]) := by
  refine ⟨fun x hx => ?_, ?_, hbytes⟩
  · rcases List.mem_append.mp hx with hx | hx
    · exact h.shape x hx
    · exact List.mem_singleton.mp hx ▸ hshape
  · rw [List.map_append, List.map_singleton, List.nodup_append]
    refine ⟨h.nodup, List.nodup_singleton _, ?_⟩
    intro a ha b hb hab
    exact hnew (List.mem_singleton.mp hb ▸ hab ▸ ha)

theorem planFile_eq_ok {sha : Sha256} {path : String} {entry : Entry} (h : planFile sha path entry = .ok e) :
    ∃ content, entry.content = some content ∧ content.length ≤ maxInlineFileBytes ∧ e = filePlan sha path content := by
  unfold planFile at h
  split at h
  · cases h
  rename_i content hcontent
  split at h
  · cases h
  rename_i hlen
  cases h
  exact ⟨content, hcontent, not_lt.mp hlen, rfl⟩

theorem planLocalDir_eq_ok {sha : Sha256} {path : String} {entry : Entry}
    (h : planLocalDir sha path entry = .ok e) : ∃ sourceText, e = localDirPlan sha path sourceText := by
  unfold planLocalDir at h
  split at h
  · cases h
  split at h
  · cases h
  cases h
  exact ⟨_, rfl⟩

/-- The loop of the builder, one item at a time. -/
theorem planEntryItems_planned {sha : Sha256} {items : List (PyKey × Entry)} {planned out : List EntryPlan}
    (hp : Planned sha planned) (h : planEntryItems sha planned (fileBytes planned) items = .ok out) :
    Planned sha out ∧ out.length = planned.length + items.length := by
  induction items generalizing planned with
  | nil =>
    cases h
    exact ⟨hp, rfl⟩
  | cons item items ih =>
    obtain ⟨rawPath, entry⟩ := item
    rw [planEntryItems] at h
    split at h
    · cases h
    rename_i path hpath
    have hplan := planPath_of_normalizeEntryPath hpath
    split at h
    · cases h
    rename_i hnew
    split at h
    · cases h
    split at h
    · split at h
      · cases h
      rename_i e he
      obtain ⟨content, -, hlen, rfl⟩ := planFile_eq_ok he
      have hbytes : fileBytes planned + content.length = fileBytes (planned ++ [filePlan sha path content]) := by
        rw [fileBytes_append]
        simp [fileBytes, filePlan]
      split at h
      · cases h
      rename_i hle
      have hle' : fileBytes (planned ++ [filePlan sha path content]) ≤ maxTotalInlineFileBytes := hbytes ▸ not_lt.mp hle
      have hnext := ih (hp.concat (.file hplan hlen) hnew hle') (hbytes ▸ h)
      refine ⟨hnext.1, ?_⟩
      rw [hnext.2, List.length_append, List.length_singleton, List.length_cons]
      omega
    · split at h
      · cases h
      rename_i e he
      obtain ⟨sourceText, rfl⟩ := planLocalDir_eq_ok he
      have hbytes : fileBytes planned = fileBytes (planned ++ [localDirPlan sha path sourceText]) := by
        rw [fileBytes_append]
        simp [fileBytes, localDirPlan]
      have hnext := ih (hp.concat (.localDir hplan) hnew (hbytes ▸ hp.bytes_le)) (hbytes ▸ h)
      refine ⟨hnext.1, ?_⟩
      rw [hnext.2, List.length_append, List.length_singleton, List.length_cons]
      omega

/-- The entries of a plan. -/
structure PlannedEntries (sha : Sha256) (entries : List EntryPlan) : Prop extends Planned sha entries where
  length_le : entries.length ≤ maxEntries
  sorted : entries.Pairwise (fun a b => a.path ≤ b.path)
  apart : ∀ a ∈ entries, ∀ b ∈ entries, a.path.toList ∉ PosixPath.ancestors b.path.toList

theorem planEntries_eq_ok {sha : Sha256} {entries : Option (Dict PyKey Entry)} {out : List EntryPlan}
    (h : planEntries sha entries = .ok out) :
    ∃ items planned, entries = some items ∧ planEntryItems sha [] 0 items.entries = .ok planned ∧ planned.Perm out ∧
      PlannedEntries sha out := by
  unfold planEntries at h
  split at h
  · cases h
  rename_i items
  split at h
  · cases h
  rename_i hsize
  split at h
  · cases h
  rename_i planned hplanned
  split at h
  · cases h
  rename_i hover
  cases h
  have hperm := List.perm_insertionSort (fun a b : EntryPlan => a.path ≤ b.path) planned
  obtain ⟨hp, hlen⟩ := planEntryItems_planned ⟨by simp, by simp, by simp [fileBytes]⟩ hplanned
  refine ⟨items, planned, rfl, hplanned, hperm.symm, ⟨fun e he => hp.shape e (hperm.mem_iff.mp he), ?_, ?_⟩, ?_, ?_, ?_⟩
  · exact (hperm.map _).nodup_iff.mpr hp.nodup
  · have hbytes : fileBytes (planned.insertionSort fun a b => a.path ≤ b.path) = fileBytes planned :=
      ((hperm.filter _).map _).sum_eq
    exact hbytes ▸ hp.bytes_le
  · rw [hperm.length_eq, hlen, List.length_nil, Nat.zero_add]
    exact not_lt.mp hsize
  · have : IsTrans EntryPlan (fun a b => a.path ≤ b.path) := ⟨fun a b c hab hbc => le_trans hab hbc⟩
    have : Std.Total (fun a b : EntryPlan => a.path ≤ b.path) := ⟨fun a b => le_total a.path b.path⟩
    exact List.pairwise_insertionSort _ _
  · intro a ha b hb hanc
    refine hover (List.any_eq_true.mpr ⟨b.path, List.mem_map_of_mem (hperm.mem_iff.mp hb), ?_⟩)
    refine List.any_eq_true.mpr ⟨a.path.toList, hanc, decide_eq_true ?_⟩
    rw [String.ofList_toList]
    exact List.mem_map_of_mem (hperm.mem_iff.mp ha)

/-! ## The environment -/

/-- What the builder checks of a variable. -/
structure EnvironmentShape (e : EnvironmentPlan) : Prop where
  key : isEnvKey e.key = true
  keyBytes : e.key.utf8ByteSize ≤ maxEnvKeyBytes
  keyControl : e.key.toList.any isControl = false
  valueBytes_le : e.valueBytes ≤ maxEnvValueBytes
  digest : isHexOfLength 64 e.valueSha256 = true

theorem environmentBytes_append (as bs : List EnvironmentPlan) :
    environmentBytes (as ++ bs) = environmentBytes as + environmentBytes bs := by
  simp [environmentBytes]

/-- The loop of the builder: what it appends, one variable for each item. -/
theorem planEnvironmentItems_spec {sha : Sha256} {items : List (PyKey × Option PyStr)} {planned out : List EnvironmentPlan}
    (hle : environmentBytes planned ≤ maxTotalEnvValueBytes)
    (h : planEnvironmentItems sha planned (environmentBytes planned) items = .ok out) :
    environmentBytes out ≤ maxTotalEnvValueBytes ∧ ∃ added, out = planned ++ added ∧
      items.map (·.1) = added.map (fun e => .str (.text e.key)) ∧ ∀ e ∈ added, EnvironmentShape e := by
  induction items generalizing planned with
  | nil =>
    cases h
    exact ⟨hle, [], by simp, rfl, by simp⟩
  | cons item items ih =>
    obtain ⟨rawKey, rawValue⟩ := item
    cases rawKey with
    | path => cases h
    | other => cases h
    | str rawKey =>
      rw [planEnvironmentItems] at h
      split at h
      · cases h
      rename_i key hkey
      obtain ⟨rfl, -, -, hsize, hcontrol⟩ := safeText_eq_ok hkey
      split at h
      · cases h
      rename_i henv
      split at h
      · cases h
      · split at h
        · cases h
        · split at h <;> cases h
      · rename_i value
        split at h
        · cases h
        split at h
        · cases h
        split at h
        · cases h
        rename_i hvalue
        split at h
        · cases h
        rename_i htotal
        have hbytes : environmentBytes planned + value.utf8ByteSize =
            environmentBytes (planned ++ [⟨key, value.utf8ByteSize, sha.hex (utf8 value)⟩]) := by
          rw [environmentBytes_append]
          simp [environmentBytes]
        obtain ⟨hout, added, rfl, hkeys, hshape⟩ := ih (hbytes ▸ not_lt.mp htotal) (hbytes ▸ h)
        refine ⟨hout, ⟨key, value.utf8ByteSize, sha.hex (utf8 value)⟩ :: added, by simp, by simp [hkeys], ?_⟩
        intro e he
        rcases List.mem_cons.mp he with rfl | he
        · exact ⟨by simpa using henv, hsize, hcontrol, not_lt.mp hvalue, sha.hex_valid _⟩
        · exact hshape e he

/-- The environment of a plan. -/
structure PlannedEnvironment (environment : List EnvironmentPlan) : Prop where
  shape : ∀ e ∈ environment, EnvironmentShape e
  nodup : (environment.map (·.key)).Nodup
  bytes_le : environmentBytes environment ≤ maxTotalEnvValueBytes
  length_le : environment.length ≤ maxEnvVars
  sorted : environment.Pairwise (fun a b => a.key ≤ b.key)

theorem planEnvironment_eq_ok {sha : Sha256} {environment : Option (Dict PyKey (Option PyStr))} {out : List EnvironmentPlan}
    (h : planEnvironment sha environment = .ok out) : PlannedEnvironment out := by
  unfold planEnvironment at h
  split at h
  · cases h
  rename_i values
  split at h
  · cases h
  rename_i hsize
  split at h
  · cases h
  rename_i planned hplanned
  cases h
  obtain ⟨hbytes, added, hadded, hkeys, hshape⟩ :=
    planEnvironmentItems_spec (by simp [environmentBytes]) hplanned
  rw [List.nil_append] at hadded
  subst hadded
  have hperm := List.perm_insertionSort (fun a b : EnvironmentPlan => a.key ≤ b.key) planned
  refine ⟨fun e he => hshape e (hperm.mem_iff.mp he), (hperm.map _).nodup_iff.mpr ?_, ?_, ?_, ?_⟩
  · have hnodup := values.nodup
    rw [hkeys, show (fun e : EnvironmentPlan => PyKey.str (.text e.key)) = (fun k => PyKey.str (.text k)) ∘ (·.key) from rfl,
      ← List.map_map] at hnodup
    exact hnodup.of_map _
  · have hsum : environmentBytes (planned.insertionSort fun a b => a.key ≤ b.key) = environmentBytes planned :=
      (hperm.map _).sum_eq
    exact hsum ▸ hbytes
  · have hlen := congrArg List.length hkeys
    rw [List.length_map, List.length_map] at hlen
    rw [hperm.length_eq, ← hlen]
    exact not_lt.mp hsize
  · have : IsTrans EnvironmentPlan (fun a b => a.key ≤ b.key) := ⟨fun a b c hab hbc => le_trans hab hbc⟩
    have : Std.Total (fun a b : EnvironmentPlan => a.key ≤ b.key) := ⟨fun a b => le_total a.key b.key⟩
    exact List.pairwise_insertionSort _ _

/-! ## What the runner reads -/

section Reading

open RunnerRpc

variable {sha : Sha256}

/-- The runner reads an entry from its dictionary. -/
theorem checkEntry_toDict {e : EntryPlan} (h : EntryShape sha e) {d : JsonDict} (hd : Reads d e.toDict) {paths : List String}
    (hnew : e.path ∉ paths) (hapart : ∀ p ∈ paths, p.toList ∉ PosixPath.ancestors e.path.toList) :
    checkEntry (.obj d) paths = .ok (e.path, e.contentBytes) := by
  have hnotAny : (PosixPath.ancestors e.path.toList).any (fun p => decide (String.ofList p ∈ paths)) = false := by
    rw [List.any_eq_false]
    intro p hp hmem
    exact hapart _ (of_decide_eq_true hmem) (by rwa [String.toList_ofList])
  have hkeys : exactKeys d planEntryKeys = true := hd.keys
  have hplan : planPath? (item d "path") = some e.path := by
    rw [hd.item]
    exact if_pos h.path.isPlanPath
  rw [checkEntry, hkeys, if_neg (by decide), hplan]
  dsimp only
  rw [if_neg hnew, hnotAny, if_neg (by decide)]
  cases h with
  | @file path content hp hlen =>
    have hcount : planCount? (item d "content_bytes") (1024 * 1024) = some content.length := by
      rw [hd.item]
      exact if_pos ⟨Int.natCast_nonneg _, Int.ofNat_le.mpr hlen⟩
    have hdigest : validDigest? (item d "content_sha256") = some (sha.hex content) := by
      rw [hd.item]
      exact if_pos (sha.hex_valid content)
    rw [hcount, hdigest, hd.item, hd.item, hd.item, hd.item, hd.item, hd.item, hd.item]
    rfl
  | @localDir path source hp =>
    have hdigest : validDigest? (item d "local_source_path_sha256") = some (sha.hex (utf8 source)) := by
      rw [hd.item]
      exact if_pos (sha.hex_valid _)
    rw [hdigest, hd.item, hd.item, hd.item, hd.item, hd.item, hd.item, hd.item, hd.item]
    rfl

theorem nodup_keys_toDict (e : EntryPlan) : (e.toDict.map (·.1)).Nodup := by
  simp [EntryPlan.toDict]

theorem nodup_keys_toDict_environment (e : EnvironmentPlan) : (e.toDict.map (·.1)).Nodup := by
  simp [EnvironmentPlan.toDict]

/-- The loop over the entries reads all of them. -/
theorem checkEntries_toDict {entries : List EntryPlan} (hshape : ∀ e ∈ entries, EntryShape sha e) (paths : List String)
    (hnodup : (paths ++ entries.map (·.path)).Nodup)
    (hapart : ∀ p ∈ paths ++ entries.map (·.path), ∀ e ∈ entries, p.toList ∉ PosixPath.ancestors e.path.toList)
    (t : PlanTotals) :
    checkEntries paths t (entries.map fun e => (Json.obj e.toDict).sortKeys) =
      .ok (paths ++ entries.map (·.path), entries.foldl (fun t e => t.add e.contentBytes) t) := by
  induction entries generalizing paths t with
  | nil => simp [checkEntries]
  | cons e entries ih =>
    have hmem : e ∈ e :: entries := List.mem_cons_self
    have hnew : e.path ∉ paths := by
      intro hin
      exact (List.nodup_append.mp hnodup).2.2 _ hin _ (List.mem_map_of_mem hmem) rfl
    have hhead : checkEntry (Json.obj e.toDict).sortKeys paths = .ok (e.path, e.contentBytes) :=
      checkEntry_toDict (hshape e hmem) (reads_sortKeys (nodup_keys_toDict e)) hnew
        fun p hp => hapart p (List.mem_append_left _ hp) e hmem
    have happend : paths ++ (e :: entries).map (·.path) = (paths ++ [e.path]) ++ entries.map (·.path) := by simp
    rw [happend] at hnodup hapart ⊢
    rw [List.map_cons, checkEntries, hhead]
    exact ih (fun x hx => hshape x (List.mem_cons_of_mem e hx)) _ hnodup
      (fun p hp x hx => hapart p hp x (List.mem_cons_of_mem e hx)) _

/-- What the loop has counted then. -/
theorem foldl_add {entries : List EntryPlan} (hshape : ∀ e ∈ entries, EntryShape sha e) (t : PlanTotals) :
    entries.foldl (fun t e => t.add e.contentBytes) t =
      ⟨t.files + entries.countP (fun e => e.kind = "file"), t.localDirs + entries.countP (fun e => e.kind = "local_dir"),
        t.fileBytes + fileBytes entries⟩ := by
  induction entries generalizing t with
  | nil => simp [fileBytes]
  | cons e entries ih =>
    rw [List.foldl_cons, ih fun x hx => hshape x (List.mem_cons_of_mem e hx)]
    have hhead := hshape e List.mem_cons_self
    cases hhead with
    | file =>
      simp only [PlanTotals.add, filePlan, fileBytes, List.countP_cons, List.filter_cons]
      simp
      omega
    | localDir =>
      simp only [PlanTotals.add, localDirPlan, fileBytes, List.countP_cons, List.filter_cons]
      simp
      omega

/-- The loop over the environment reads all of it. -/
theorem checkEnvironment_toDict {environment : List EnvironmentPlan} (hshape : ∀ e ∈ environment, EnvironmentShape e)
    (keys : List String) (hnodup : (keys ++ environment.map (·.key)).Nodup) (total : Nat) :
    checkEnvironment keys total (environment.map fun e => (Json.obj e.toDict).sortKeys) =
      .ok (keys ++ environment.map (·.key), total + environmentBytes environment) := by
  induction environment generalizing keys total with
  | nil => simp [checkEnvironment, environmentBytes]
  | cons e environment ih =>
    have hmem : e ∈ e :: environment := List.mem_cons_self
    have he := hshape e hmem
    have hd := reads_sortKeys (nodup_keys_toDict_environment e)
    have hnew : ¬ (isEnvKey e.key = false ∨ e.key ∈ keys) := by
      rintro (h | h)
      · rw [he.key] at h
        cases h
      · exact (List.nodup_append.mp hnodup).2.2 _ h _ (List.mem_map_of_mem hmem) rfl
    have hcount : planCount? (item (Json.sortFields (Json.sortKeysFields e.toDict)) "value_bytes") 4096 = some e.valueBytes := by
      rw [hd.item]
      exact if_pos ⟨Int.natCast_nonneg _, Int.ofNat_le.mpr he.valueBytes_le⟩
    have hdigest : validDigest? (item (Json.sortFields (Json.sortKeysFields e.toDict)) "value_sha256") = some e.valueSha256 := by
      rw [hd.item]
      exact if_pos he.digest
    have hkey : item (Json.sortFields (Json.sortKeysFields e.toDict)) "key" = .str e.key := hd.item "key"
    have hkeys : exactKeys (Json.sortFields (Json.sortKeysFields e.toDict)) planEnvKeys = true := hd.keys
    have happend : keys ++ (e :: environment).map (·.key) = (keys ++ [e.key]) ++ environment.map (·.key) := by simp
    rw [happend] at hnodup ⊢
    rw [List.map_cons, show (Json.obj e.toDict).sortKeys = .obj (Json.sortFields (Json.sortKeysFields e.toDict)) from rfl,
      checkEnvironment, hkeys, if_neg (by decide), hkey, hcount, hdigest]
    dsimp only
    rw [if_neg hnew, ih (fun x hx => hshape x (List.mem_cons_of_mem e hx)) _ hnodup]
    simp [environmentBytes, Nat.add_assoc]

end Reading

/-! ## The size of the text -/

theorem size_str_of_noControl (h : s.toList.any isControl = false) : (Json.str s).size ≤ 2 * s.utf8ByteSize + 2 := by
  refine Json.size_str fun c hc hlt => ?_
  have hcontrol := List.any_eq_false.mp h c hc
  simp only [isControl, Bool.or_eq_true, decide_eq_true_eq, not_or, not_lt] at hcontrol
  omega

/-- The size of a digest. -/
theorem size_digest (h : isHexOfLength 64 s = true) : (Json.str s).size ≤ 130 := by
  obtain ⟨hlen, hhex⟩ := Bool.and_eq_true_iff.mp h
  have hchar : ∀ c ∈ s.toList, c.utf8Size = 1 ∧ ¬ c.toNat < 32 := by
    intro c hc
    have hlow := List.all_eq_true.mp hhex c hc
    simp only [RunnerRpc.isLowerHex, Char.isDigit, Bool.or_eq_true, Bool.and_eq_true, decide_eq_true_eq] at hlow
    have hnat : 48 ≤ c.toNat ∧ c.toNat ≤ 102 := by
      rcases hlow with ⟨h1, h2⟩ | ⟨h1, h2⟩
      · exact ⟨h1, le_trans h2 (by decide : (57 : Nat) ≤ 102)⟩
      · exact ⟨le_trans (by decide : (48 : Nat) ≤ 97) h1, h2⟩
    have hascii : c.val ≤ 127 := UInt32.le_iff_toNat_le.mpr (show c.toNat ≤ 127 by omega)
    exact ⟨if_pos hascii, by omega⟩
  have hsum : ∀ cs : List Char, (∀ c ∈ cs, c.utf8Size = 1) → Json.byteLength cs = cs.length := by
    intro cs hcs
    induction cs with
    | nil => rfl
    | cons c cs ih =>
      rw [Json.byteLength_cons, hcs c List.mem_cons_self, ih fun x hx => hcs x (List.mem_cons_of_mem c hx), List.length_cons]
      omega
  have hsize : s.utf8ByteSize = 64 := by
    rw [Json.utf8ByteSize_eq, hsum _ fun c hc => (hchar c hc).1, String.length_toList]
    exact eq_of_beq hlen
  have hle := Json.size_str fun c hc => (hchar c hc).2
  omega

theorem size_entry {sha : Sha256} (h : EntryShape sha e) : (Json.obj e.toDict).size ≤ 1560 := by
  have hpath := h.path
  have hsize := size_str_of_noControl hpath.noControl
  have hlimit : e.path.utf8ByteSize ≤ 512 := hpath.size_le
  have hkeys : ((e.toDict.map (·.1)).map (fun k => Json.byteLength (Json.quote k.toList))).sum = 198 := by
    show (RunnerRpc.planEntryKeys.map (fun k => Json.byteLength (Json.quote k.toList))).sum = 198
    decide
  rw [Json.size_obj, hkeys]
  cases h with
  | @file path content hp hlen =>
    have hdigest := size_digest (sha.hex_valid content)
    have hcount : (Json.int content.length).size ≤ 7 := Json.size_nat (by decide) (lt_of_le_of_lt hlen (by decide))
    have hkind : (Json.str "file").size = 6 := by decide
    have hfalse : (Json.bool false).size = 5 := by decide
    have hnull : Json.null.size = 4 := by decide
    simp only [filePlan] at hsize hlimit
    simp only [EntryPlan.toDict, filePlan, jsonOption, jsonNat, List.map_cons, List.map_nil, List.sum_cons, List.sum_nil,
      List.length_cons, List.length_nil, hkind, hfalse, hnull]
    omega
  | @localDir path source hp =>
    have hdigest := size_digest (sha.hex_valid (utf8 source))
    have hkind : (Json.str "local_dir").size = 11 := by decide
    have hfalse : (Json.bool false).size = 5 := by decide
    have htrue : (Json.bool true).size = 4 := by decide
    have hnull : Json.null.size = 4 := by decide
    simp only [localDirPlan] at hsize hlimit
    simp only [EntryPlan.toDict, localDirPlan, jsonOption, List.map_cons, List.map_nil, List.sum_cons, List.sum_nil,
      List.length_cons, List.length_nil, hkind, hfalse, htrue, hnull]
    omega

theorem size_variable {e : EnvironmentPlan} (h : EnvironmentShape e) : (Json.obj e.toDict).size ≤ 440 := by
  have hkey := size_str_of_noControl h.keyControl
  have hlimit : e.key.utf8ByteSize ≤ 128 := h.keyBytes
  have hdigest := size_digest h.digest
  have hcount : (Json.int e.valueBytes).size ≤ 4 := Json.size_nat (by decide) (lt_of_le_of_lt h.valueBytes_le (by decide))
  have hkeys : ((e.toDict.map (·.1)).map (fun k => Json.byteLength (Json.quote k.toList))).sum = 32 := by
    show (RunnerRpc.planEnvKeys.map (fun k => Json.byteLength (Json.quote k.toList))).sum = 32
    decide
  rw [Json.size_obj, hkeys]
  simp only [EnvironmentPlan.toDict, jsonNat, List.map_cons, List.map_nil, List.sum_cons, List.sum_nil, List.length_cons,
    List.length_nil]
  omega

/-- The runner's limit on the text is never reached. -/
theorem size_payload {sha : Sha256} {entries : List EntryPlan} {environment : List EnvironmentPlan}
    (he : PlannedEntries sha entries) (hv : PlannedEnvironment environment) :
    (Json.obj (payload (.int 1) (.str "/workspace") entries environment)).size ≤ RunnerRpc.planMaxBytes := by
  have hentry : ∀ v ∈ entries.map (fun e => Json.obj e.toDict), v.size ≤ 1560 := by
    intro v hmem
    obtain ⟨e, he', rfl⟩ := List.mem_map.mp hmem
    exact size_entry (he.shape e he')
  have hvariable : ∀ v ∈ environment.map (fun e => Json.obj e.toDict), v.size ≤ 440 := by
    intro v hmem
    obtain ⟨e, he', rfl⟩ := List.mem_map.mp hmem
    exact size_variable (hv.shape e he')
  have hentries := Json.size_arr_le hentry
  have hvariables := Json.size_arr_le hvariable
  rw [List.length_map] at hentries hvariables
  have hlen : entries.length ≤ 128 := he.length_le
  have hvlen : environment.length ≤ 64 := hv.length_le
  have hkeys : (((payload (.int 1) (.str "/workspace") entries environment).map (·.1)).map
      (fun k => Json.byteLength (Json.quote k.toList))).sum = 166 := by
    show (RunnerRpc.planKeys.map (fun k => Json.byteLength (Json.quote k.toList))).sum = 166
    decide
  have hschema : (Json.str schema).size = 29 := by decide
  have hversion : (Json.int 1).size = 1 := by decide
  have hroot : (Json.str "/workspace").size = 12 := by decide
  have hfalse : (Json.bool false).size = 5 := by decide
  rw [Json.size_obj, hkeys]
  simp only [payload, List.map_cons, List.map_nil, List.sum_cons, List.sum_nil, List.length_cons, List.length_nil, hschema,
    hversion, hroot, hfalse]
  have hlimit : RunnerRpc.planMaxBytes = 262144 := rfl
  omega

end ManifestAdmission

end XbowPerso
