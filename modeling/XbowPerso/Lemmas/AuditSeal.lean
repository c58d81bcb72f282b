import XbowPerso.AuditSeal

/-!
# What equal canonical bytes say, and what seals pass

Canonical bytes determine every field that goes into them, up to the order of keys inside it. A digest that was just written is found
again, and so is a signature by the same key.
-/

namespace XbowPerso

namespace AuditSeal

/-! ## Equality with a text, a number or nothing -/

variable {v : Json} {s : String}

theorem eq_str_of_pyEq (h : v.pyEq (.str s) = true) : v = .str s := by
  cases v with
  | str t =>
    have hst : t = s := by simpa [Json.pyEq] using h
    rw [hst]
  | _ => simp [Json.pyEq, Json.decimal?] at h

theorem eq_null_of_pyEq (h : v.pyEq .null = true) : v = .null := by
  cases v with
  | null => rfl
  | _ => simp [Json.pyEq, Json.decimal?] at h

theorem eq_str_of_text? (h : text? v = some s) : v = .str s := by
  unfold text? at h
  split at h
  · cases h
    rfl
  · cases h

theorem pyEq_str (s : String) : (Json.str s).pyEq (.str s) = true := by
  simp [Json.pyEq]

theorem pyEq_null : Json.null.pyEq .null = true := by
  simp [Json.pyEq]

theorem pyEq_int (n : Int) : (Json.int n).pyEq (.int n) = true := by
  simp [Json.pyEq, Json.decimal?, Json.sameDecimal]

/-! ## Canonical bytes -/

variable {k : String}

theorem mem_sortKeys_fields {fs : List (String × Json)} {w : Json} :
    (k, w) ∈ Json.sortFields (Json.sortKeysFields fs) ↔ ∃ v, (k, v) ∈ fs ∧ v.sortKeys = w := by
  rw [(Json.sortFields_perm _).mem_iff, Json.sortKeysFields_eq, List.mem_map]
  constructor
  · rintro ⟨⟨k', v⟩, hmem, heq⟩
    cases heq
    exact ⟨v, hmem, rfl⟩
  · rintro ⟨v, hmem, rfl⟩
    exact ⟨(k, v), hmem, rfl⟩

/-- Objects with the same sorted text have the same fields, up to the order of keys inside them. -/
theorem field_of_dumpsSorted_eq {fs gs : List (String × Json)} (hfs : (Json.obj fs).Distinct) (hgs : (Json.obj gs).Distinct)
    (h : (Json.obj fs).dumpsSorted = (Json.obj gs).dumpsSorted) (hv : (k, v) ∈ fs) :
    ∃ w, (k, w) ∈ gs ∧ w.sortKeys = v.sortKeys := by
  have hreordered := (Json.dumpsSorted_inj hfs hgs).mp h
  have hsorted := (hreordered.sortKeys_eq hfs).2
  rw [Json.sortKeys_obj, Json.sortKeys_obj] at hsorted
  have hmem : (k, v.sortKeys) ∈ Json.sortFields (Json.sortKeysFields gs) := by
    rw [← Json.obj.inj hsorted]
    exact mem_sortKeys_fields.mpr ⟨v, hv, rfl⟩
  exact mem_sortKeys_fields.mp hmem

/-- A text is the same value in every order of keys. -/
theorem eq_str_of_sortKeys (h : v.sortKeys = .str s) : v = .str s := by
  cases v with
  | str t => exact h
  | _ => simp [Json.sortKeys] at h

theorem distinct_filter (entry : AuditEntry) (p : String × Json → Bool) : (Json.obj (entry.fields.filter p).entries).Distinct := by
  refine ⟨(entry.fields.filter p).nodup, (Json.distinctFields_iff _).mpr fun f hf => ?_⟩
  exact entry.distinct f (List.mem_filter.mp hf).1

variable {volatile : List String}

theorem field_of_canonicalWithout_eq {volatile' : List String} {x y : AuditEntry}
    (h : x.canonicalWithout volatile = y.canonicalWithout volatile') (hk : k ∉ volatile)
    (hx : x.fields.get? k = some v) : ∃ w, y.fields.get? k = some w ∧ w.sortKeys = v.sortKeys := by
  have htext := utf8_injective h
  have hmem : (k, v) ∈ (x.fields.filter fun e => decide (e.1 ∉ volatile)).entries :=
    List.mem_filter.mpr ⟨Dict.mem_entries.mpr hx, decide_eq_true hk⟩
  obtain ⟨w, hw, hsort⟩ := field_of_dumpsSorted_eq (distinct_filter x _) (distinct_filter y _) htext hmem
  exact ⟨w, Dict.mem_entries.mp (List.mem_filter.mp hw).1, hsort⟩

/-- A field that goes into the canonical bytes is the same in every entry with these bytes, up to the order of the keys in it. -/
theorem sortKeys_get_of_canonicalWithout_eq {volatile' : List String} {x y : AuditEntry}
    (h : x.canonicalWithout volatile = y.canonicalWithout volatile') (hk : k ∉ volatile) (hk' : k ∉ volatile') :
    (x.get k).sortKeys = (y.get k).sortKeys := by
  unfold AuditEntry.get
  cases hx : x.fields.get? k with
  | some v =>
    obtain ⟨w, hy, hsort⟩ := field_of_canonicalWithout_eq h hk hx
    rw [hy]
    exact hsort.symm
  | none =>
    cases hy : y.fields.get? k with
    | none => rfl
    | some w =>
      obtain ⟨v, hx', _⟩ := field_of_canonicalWithout_eq h.symm hk' hy
      cases hx.symm.trans hx'

/-- A text that goes into the canonical bytes is the same in every entry with these bytes. -/
theorem get_of_canonicalWithout_eq {x y : AuditEntry}
    (h : x.canonicalWithout volatile = y.canonicalWithout volatile) (hk : k ∉ volatile) (hx : x.get k = .str s) :
    y.get k = .str s := by
  have hsort := sortKeys_get_of_canonicalWithout_eq h hk hk
  rw [hx] at hsort
  exact eq_str_of_sortKeys hsort.symm

/-- A volatile field does not change the canonical bytes. -/
theorem canonicalWithout_set {entry : AuditEntry} (hv : v.Distinct)
    (hk : k ∈ volatile) : (entry.set k v hv).canonicalWithout volatile = entry.canonicalWithout volatile := by
  unfold AuditEntry.canonicalWithout AuditEntry.set
  dsimp only
  rw [Dict.entries_filter_set_of_not fun _ => decide_eq_false (not_not.mpr hk)]

/-! ## Digests -/

theorem isAscii_of_isHexOfLength {n : Nat} (h : RunnerRpc.isHexOfLength n s = true) :
    s.toList.any (fun c => decide (128 ≤ c.toNat)) = false := by
  unfold RunnerRpc.isHexOfLength at h
  rw [Bool.and_eq_true] at h
  refine List.any_eq_false.mpr fun c hc => ?_
  have hhex := List.all_eq_true.mp h.2 c hc
  unfold RunnerRpc.isLowerHex at hhex
  rw [Bool.or_eq_true, Bool.and_eq_true, decide_eq_true_iff, decide_eq_true_iff] at hhex
  have hlt : c.toNat < 128 := by
    rcases hhex with hdigit | ⟨-, hle⟩
    · unfold Char.isDigit at hdigit
      rw [Bool.and_eq_true, decide_eq_true_iff, decide_eq_true_iff] at hdigit
      have hle : c.toNat ≤ 57 := hdigit.2
      omega
    · have hle : c.toNat ≤ 102 := hle
      omega
  simpa using hlt

/-- A digest that was written is found again. -/
theorem compareDigest_self (env : AuditEnv) {digest : String} (h : RunnerRpc.isHexOfLength 64 digest = true) :
    compareDigest env (.str digest) digest = .ok true := by
  unfold compareDigest
  rw [env.str_str, isAscii_of_isHexOfLength h, if_neg Bool.false_ne_true, decide_eq_true rfl]

theorem str_eq_of_compareDigest {env : AuditEnv} {digest : String} (h : compareDigest env v digest = .ok true) :
    env.str v = digest := by
  unfold compareDigest at h
  split at h
  · cases h
  exact of_decide_eq_true (Except.ok.inj h)

/-! ## Signatures -/

/-- A signature by the key of the verifier passes, and so does none. -/
theorem checkSignature_sign (env : AuditEnv) (what : String) {signer secret : ResolvedSecret}
    (h : signer.key = none ∨ signer.key = secret.key) (canonical : List UInt8) :
    checkSignature env what secret (sign env signer.key canonical).2 (sign env signer.key canonical).1 canonical = .ok none := by
  cases hkey : signer.key with
  | none =>
    unfold checkSignature sign
    exact if_pos pyEq_null
  | some key =>
    rw [hkey] at h
    have hsecret : secret.key = some key := (h.resolve_left (Option.some_ne_none key)).symm
    unfold checkSignature sign
    dsimp only
    rw [if_neg (by simp [Json.pyEq, Json.decimal?]), if_neg (by simp [Json.pyEq])]
    cases secret with
    | error e => cases hsecret
    | ok resolved =>
      dsimp only
      rw [hsecret]
      dsimp only
      rw [compareDigest_self env (env.hmac_valid key canonical)]

/-- A signature that passes is the one of the key over the canonical bytes. -/
theorem of_checkSignature {env : AuditEnv} {what : String} {secret : ResolvedSecret} {signature algorithm : Json}
    {canonical : List UInt8} (h : checkSignature env what secret signature algorithm canonical = .ok none) :
    signature = .null ∨ (algorithm = .str "hmac-sha256" ∧
      ∃ key, secret.key = some key ∧ env.str signature = env.hmac key canonical) := by
  unfold checkSignature at h
  split at h
  · rename_i hnull
    exact .inl (eq_null_of_pyEq hnull)
  · split at h
    · cases h
    rename_i halgorithm
    refine .inr ⟨eq_str_of_pyEq ((Bool.not_eq_false _).mp halgorithm), ?_⟩
    split at h
    · cases h
    split at h
    · cases h
    rename_i key hkey
    split at h
    · cases h
    · cases h
    · rename_i hcompare
      exact ⟨key, hkey, str_eq_of_compareDigest hcompare⟩

end AuditSeal

end XbowPerso
