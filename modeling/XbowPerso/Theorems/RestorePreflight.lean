import Mathlib
import XbowPerso.Lib.JsonSize
import XbowPerso.RestorePreflight
import XbowPerso.Theorems.VaultReadBack

/-!
# The preflight recognizes the files of the vault

What the writes of the vault leave in the file is sealed as the preflight asks for it: the names, twelve bytes of nonce, and a ciphertext
of a bounded length. No write looks at the size of the whole file, which is where the preflight and the reader refuse it.
-/

namespace XbowPerso

namespace RestorePreflight

open SecretVault (Document Record Call urlsafeEncode urlsafeDecode nameChars loadDocument text maxFileBytes urlsafeDecode_urlsafeEncode
  decodeUtf8_utf8)

variable {aes : TaggedAesGcm}

/-! ## What the writes leave -/

/-- A secret whose record decodes to a nonce and a ciphertext as the vault makes them. -/
def WellSealed (name : String) (record : Record) : Prop :=
  isSecretName name = true ∧ ∃ nonce ciphertext, record = ⟨urlsafeEncode nonce, urlsafeEncode ciphertext⟩ ∧ nonce.length = 12 ∧
    16 ≤ ciphertext.length ∧ ciphertext.length ≤ 16400

/-- All secrets of a document are well sealed. -/
def AllSealed (document : Document) : Prop := ∀ name record, document.get? name = some record → WellSealed name record

theorem isSecretName_of_check {call : Call} (h : call.check = .ok ()) : isSecretName call.name = true ∧ call.value.utf8ByteSize ≤ 16384 := by
  unfold Call.check at h
  split at h
  · cases h
  rename_i hname
  split at h
  · cases h
  rename_i hvalue
  rw [not_or, not_or] at hname
  rw [not_or] at hvalue
  obtain ⟨hnonempty, hlength, hchars⟩ := hname
  refine ⟨?_, Nat.not_lt.mp hvalue.2⟩
  have hpos : 1 ≤ call.name.length := by
    by_contra hzero
    exact hnonempty (String.length_eq_zero_iff.mp (by omega))
  have hall : call.name.toList.all (fun c => decide (c ∈ nameChars)) = true := by
    rw [List.all_eq_true]
    intro c hc
    by_contra hnot
    exact hchars (List.any_eq_true.mpr ⟨c, hc, by simpa using hnot⟩)
  simp [isSecretName, hpos, Nat.not_lt.mp hlength, hall]

theorem wellSealed_record {key : List UInt8} {name : String} {plaintext : List UInt8} (nonce : Nonce) (hname : isSecretName name = true)
    (hlength : plaintext.length ≤ 16384) : WellSealed name (sealedRecord aes key name plaintext nonce) := by
  refine ⟨hname, nonce.1, _, rfl, nonce.2, ?_, ?_⟩
  · rw [aes.length_encrypt]
    omega
  · rw [aes.length_encrypt]
    omega

/-- What is decrypted is that of the entries, in their order. -/
theorem plaintexts_spec {oldKey : List UInt8} {entries : List (String × Record)} {texts : List (String × List UInt8)}
    (h : plaintexts aes oldKey entries = some texts) :
    texts.map Prod.fst = entries.map Prod.fst ∧
      ∀ t ∈ texts, ∃ record nonce ciphertext, (t.1, record) ∈ entries ∧ urlsafeDecode record.ciphertext = some ciphertext ∧
        aes.decrypt oldKey nonce ciphertext (utf8 t.1) = some t.2 := by
  induction entries generalizing texts with
  | nil =>
    cases h
    exact ⟨rfl, fun t ht => nomatch ht⟩
  | cons entry rest ih =>
    obtain ⟨name, record⟩ := entry
    unfold plaintexts at h
    split at h
    · rename_i nonce ciphertext _ hciphertext
      split at h
      · rename_i plaintext others hdecrypt hothers
        cases h
        obtain ⟨hnames, hall⟩ := ih hothers
        refine ⟨by rw [List.map_cons, List.map_cons, hnames], ?_⟩
        intro t ht
        obtain rfl | ht := List.mem_cons.mp ht
        · exact ⟨record, nonce, ciphertext, List.mem_cons_self, hciphertext, hdecrypt⟩
        · obtain ⟨record', nonce', ciphertext', hin, hrest⟩ := hall t ht
          exact ⟨record', nonce', ciphertext', List.mem_cons_of_mem _ hin, hrest⟩
      · cases h
    · cases h

variable {document : Document}

theorem loadDocument_some {file : Option Document} (h : loadDocument (file.map .document) = .ok document) :
    document = .empty ∨ file = some document := by
  cases file with
  | none =>
    cases h
    exact .inl rfl
  | some d =>
    change (if _ then _ else _) = _ at h
    split at h
    · cases h
    cases h
    exact .inr rfl

/-- One write keeps the secrets well sealed. -/
theorem allSealed_writeDocument {file : Option Document} (hfile : ∀ d, file = some d → AllSealed d) {write : Write}
    (h : writeDocument aes file write = .ok document) : AllSealed document := by
  have hloaded : ∀ loaded, loadDocument (file.map .document) = .ok loaded → AllSealed loaded := by
    intro loaded hload
    obtain rfl | hsome := loadDocument_some hload
    · intro name record hget
      cases hget
    · exact hfile loaded hsome
  cases write with
  | setSecret key name value nonce =>
    unfold writeDocument at h
    dsimp only at h
    split at h
    · rename_i loaded hcheck hload
      cases h
      obtain ⟨hname, hvalue⟩ := isSecretName_of_check hcheck
      intro other record hget
      rw [Dict.get?_set] at hget
      split at hget
      · rename_i heq
        cases hget
        rw [heq]
        exact wellSealed_record nonce hname (by rw [length_utf8]; exact hvalue)
      · exact hloaded loaded hload other record hget
    · cases h
    · cases h
  | rekey oldKey newKey nonces =>
    unfold writeDocument at h
    dsimp only at h
    split at h
    · cases h
    split at h
    · cases h
    rename_i loaded hload
    split at h
    · cases h
    rename_i texts htexts
    cases h
    obtain ⟨hnames, hall⟩ := plaintexts_spec htexts
    intro name record hget
    have hnodup : ((texts.map fun t => (t.1, sealedRecord aes newKey t.1 t.2 (nonces t.1))).map (·.1)).Nodup := by
      rw [List.map_map]
      exact hnames ▸ loaded.nodup
    have hin := Dict.mem_entries.mpr hget
    rw [Dict.entries_ofList hnodup] at hin
    obtain ⟨t, ht, heq⟩ := List.mem_map.mp hin
    cases heq
    obtain ⟨old, nonce, ciphertext, hold, hdecode, hdecrypt⟩ := hall t ht
    obtain ⟨hname, _, sealedText, rfl, -, -, hbound⟩ := hloaded loaded hload _ _ (Dict.mem_entries.mp hold)
    rw [urlsafeDecode_urlsafeEncode] at hdecode
    cases hdecode
    have hlength := aes.length_decrypt _ _ _ _ _ hdecrypt
    exact wellSealed_record _ hname (by omega)

/-- The secrets are well sealed after any writes. -/
theorem allSealed_afterWrites {writes : List Write} (h : afterWrites aes writes = some document) :
    AllSealed document := by
  have hrun : ∀ (writes : List Write) (file : Option Document), (∀ d, file = some d → AllSealed d) →
      ∀ d, writes.foldl (afterWrite aes) file = some d → AllSealed d := by
    intro writes
    induction writes with
    | nil => exact fun file hfile => hfile
    | cons write writes ih =>
      intro file hfile
      refine ih _ fun d hd => ?_
      unfold afterWrite at hd
      split at hd
      · exact hfile d hd
      · rename_i document hdocument
        cases hd
        exact allSealed_writeDocument hfile hdocument
  exact hrun writes none (fun d hd => nomatch hd) document h

/-! ## What the preflight reads of it -/

theorem sortKeys_toJson (record : Record) :
    record.toJson.sortKeys = .obj [("ciphertext", .str record.ciphertext), ("nonce", .str record.nonce)] := by
  have hle : ¬ ("nonce" ≤ "ciphertext") := by decide
  simp [Record.toJson, Json.sortKeys, Json.sortKeysFields, Json.sortFields, hle]

theorem urlsafeEncode_ne_empty {bytes : List UInt8} (h : 0 < bytes.length) : urlsafeEncode bytes ≠ "" := by
  intro hempty
  have hlength := congrArg String.length hempty
  rw [urlsafeEncode, String.length_ofList, List.length_map, Base64.length_encode] at hlength
  change _ = 0 at hlength
  omega

theorem decodeVaultField_encode (bytes : List UInt8) (h : 0 < bytes.length) :
    decodeVaultField (some (.str (urlsafeEncode bytes))) = some bytes := by
  unfold decodeVaultField
  dsimp only
  rw [if_neg (urlsafeEncode_ne_empty h), urlsafeDecode_urlsafeEncode]

theorem isVaultRecord_of_wellSealed {name : String} {record : Record} (h : WellSealed name record) :
    isVaultRecord (name, record.toJson.sortKeys) = true := by
  obtain ⟨hname, nonce, ciphertext, rfl, hnonce, hlow, hhigh⟩ := h
  have hn := decodeVaultField_encode nonce (by omega)
  have hc := decodeVaultField_encode ciphertext (by omega)
  unfold isVaultRecord
  rw [sortKeys_toJson]
  simp [hname, List.lookup, hn, hc, hnonce, hlow, hhigh]

/-- The fields of the secrets of a document. -/
def secretFields (document : Document) : List (String × Json) := document.entries.map fun e => (e.1, e.2.toJson)

theorem distinct_secretFields (document : Document) : (Json.obj (secretFields document)).Distinct := by
  refine ⟨?_, (Json.distinctFields_iff _).mpr fun f hf => ?_⟩
  · unfold secretFields
    rw [List.map_map]
    exact document.nodup
  · obtain ⟨e, -, rfl⟩ := List.mem_map.mp hf
    simp [Record.toJson, Json.Distinct, Json.DistinctFields]

/-- What is read of the file that a document was written to. -/
theorem loadJson_text (document : Document) :
    loadJson (utf8 (text document)) =
      some (.obj [("secrets", .obj (Json.sortFields (Json.sortKeysFields (secretFields document)))), ("version", .int 1)]) := by
  have hdistinct : (Json.obj [("version", .int 1), ("secrets", .obj (secretFields document))]).Distinct := by
    have hnodup : ["version", "secrets"].Nodup := by decide
    exact ⟨hnodup, trivial, distinct_secretFields document, trivial⟩
  have hle : ¬ ("version" ≤ "secrets") := by decide
  have htext : text document = (Json.obj [("version", .int 1), ("secrets", .obj (secretFields document))]).dumpsSorted := rfl
  unfold loadJson
  rw [decodeUtf8_utf8, Option.bind_some, htext, Json.loads_dumpsSorted hdistinct]
  simp [Json.sortKeys, Json.sortKeysFields, Json.sortFields, hle]

theorem secrets?_text (document : Document) :
    secrets? [("secrets", .obj (Json.sortFields (Json.sortKeysFields (secretFields document)))), ("version", .int 1)] =
      some (Json.sortFields (Json.sortKeysFields (secretFields document))) := by
  have hone : (Json.int 1).pyEq (.int 1) = true := by decide
  simp [secrets?, List.lookup, hone]

theorem utf8_text_ne_nil (document : Document) : utf8 (text document) ≠ [] := by
  intro h
  have hlength := congrArg List.length h
  rw [length_utf8, text, Json.utf8ByteSize_dumpsSorted, Json.size_obj, List.length_nil] at hlength
  omega

/-- A copy of the file that a document was written to. -/
def CopyOf (document : Document) (file : VaultFile) : Prop :=
  file.isSymlink = false ∧ file.isFile = true ∧ file.bytes = utf8 (text document)

/-- A document that is well sealed is recognized, with the number of its secrets, unless the file is too large. -/
theorem inspect_copy (hsealed : AllSealed document) {file : VaultFile} (hcopy : CopyOf document file) :
    inspectVaultCopy file = .ok (recognizedReport document.size) ↔ (text document).utf8ByteSize ≤ maxVaultBytes := by
  obtain ⟨hsymlink, hfile, hbytes⟩ := hcopy
  have hperm := Json.sortFields_perm (Json.sortKeysFields (secretFields document))
  have hrecords : (Json.sortFields (Json.sortKeysFields (secretFields document))).all isVaultRecord = true := by
    rw [List.all_eq_true]
    intro f hf
    have hin := hperm.mem_iff.mp hf
    rw [Json.sortKeysFields_eq, secretFields, List.map_map] at hin
    obtain ⟨e, he, rfl⟩ := List.mem_map.mp hin
    exact isVaultRecord_of_wellSealed (hsealed e.1 e.2 (Dict.mem_entries.mp he))
  have hcount : (Json.sortFields (Json.sortKeysFields (secretFields document))).length = document.size := by
    rw [hperm.length_eq, Json.sortKeysFields_eq, List.length_map, secretFields, List.length_map, Dict.size]
  have hregular : ¬ (file.isSymlink = true ∨ file.isFile = false) := by simp [hsymlink, hfile]
  unfold inspectVaultCopy
  rw [if_neg hregular, hbytes, if_neg (utf8_text_ne_nil document), length_utf8]
  by_cases hlarge : maxVaultBytes < (text document).utf8ByteSize
  · rw [if_pos hlarge]
    exact iff_of_false (fun h => nomatch h) (Nat.not_le.mpr hlarge)
  · rw [if_neg hlarge, loadJson_text]
    dsimp only
    rw [secrets?_text]
    dsimp only
    rw [if_pos hrecords, hcount]
    exact iff_of_true rfl (Nat.not_lt.mp hlarge)

/-! ## What the reader requires -/

/-- What a secret has to be before the reader decrypts it. -/
def Decryptable (name : String) (record : Json) : Prop :=
  isSecretName name = true ∧ ∃ nonce ciphertext, sealedBytes? record = some (nonce, ciphertext) ∧ nonce.length = 12 ∧
    16 ≤ ciphertext.length ∧ ciphertext.length ≤ 16400

theorem decodeVaultField_some {field : Option Json} {bytes : List UInt8} (h : decodeVaultField field = some bytes) :
    ∃ value, field = some (.str value) ∧ urlsafeDecode value = some bytes := by
  unfold decodeVaultField at h
  split at h
  · rename_i value
    split at h
    · cases h
    · exact ⟨value, rfl, h⟩
  · cases h

theorem decryptable_of_isVaultRecord {entry : String × Json} (h : isVaultRecord entry = true) : Decryptable entry.1 entry.2 := by
  unfold isVaultRecord at h
  rw [Bool.and_eq_true] at h
  obtain ⟨hname, hrecord⟩ := h
  refine ⟨hname, ?_⟩
  cases hentry : entry.2 with
  | obj record =>
    rw [hentry] at hrecord
    dsimp only at hrecord
    rw [Bool.and_eq_true, Option.any_eq_true, Option.any_eq_true] at hrecord
    obtain ⟨⟨nonce, hnonce, hlength⟩, ciphertext, hciphertext, hbounds⟩ := hrecord
    rw [Bool.and_eq_true, decide_eq_true_eq, decide_eq_true_eq] at hbounds
    obtain ⟨nonceText, hnonceText, hnonceBytes⟩ := decodeVaultField_some hnonce
    obtain ⟨sealedText, hsealedText, hsealedBytes⟩ := decodeVaultField_some hciphertext
    refine ⟨nonce, ciphertext, ?_, of_decide_eq_true hlength, hbounds⟩
    unfold sealedBytes?
    dsimp only
    rw [hnonceText, hsealedText]
    dsimp only
    rw [hnonceBytes, hsealedBytes]
  | null => rw [hentry] at hrecord; cases hrecord
  | bool b => rw [hentry] at hrecord; cases hrecord
  | int n => rw [hentry] at hrecord; cases hrecord
  | float x => rw [hentry] at hrecord; cases hrecord
  | nan => rw [hentry] at hrecord; cases hrecord
  | infinity neg => rw [hentry] at hrecord; cases hrecord
  | str s => rw [hentry] at hrecord; cases hrecord
  | arr elems => rw [hentry] at hrecord; cases hrecord

/-- A file that is recognized is read, where its mode is private, and all its secrets can be given to the decryption. -/
theorem inspect_sound {file : VaultFile} {report : VaultReport} (h : inspectVaultCopy file = .ok report)
    (hrecognized : report.recognized = true) :
    file.bytes.length ≤ maxFileBytes ∧ ∃ secrets, readSecrets { file with isPrivate := true } = .ok secrets ∧
      report.secretCount = secrets.length ∧ ∀ entry ∈ secrets, Decryptable entry.1 entry.2 := by
  unfold inspectVaultCopy at h
  split at h
  · cases h
  rename_i hregular
  split at h
  · cases h
  split at h
  · cases h
  rename_i hsize
  have hfile : file.isFile = true := by
    rw [not_or] at hregular
    simpa using hregular.2
  have hsmall : file.bytes.length ≤ maxFileBytes := Nat.not_lt.mp hsize
  refine ⟨hsmall, ?_⟩
  have hreadable : ¬ (file.isFile = false ∨ maxFileBytes < file.bytes.length ∨ true = false) := by
    simp [hfile, hsmall]
  unfold readSecrets
  dsimp only
  rw [if_neg hreadable]
  split at h
  · cases h
  · rename_i payload hload
    split at h
    · cases h
      cases hrecognized
    rename_i secrets hsecrets
    split at h
    · rename_i hall
      cases h
      refine ⟨secrets, rfl, rfl, fun entry hentry => ?_⟩
      exact decryptable_of_isVaultRecord (List.all_eq_true.mp hall entry hentry)
    · cases h
      cases hrecognized
  · cases h

/-- The preflight recognizes a file that the vault wrote, with the number of its secrets, exactly when it is not too large, and every file
that it recognizes is one that the reader takes. -/
theorem preflight_recognizes (aes : TaggedAesGcm) :
    (∀ writes document file, afterWrites aes writes = some document → CopyOf document file →
      (inspectVaultCopy file = .ok (recognizedReport document.size) ↔ (text document).utf8ByteSize ≤ maxVaultBytes)) ∧
    ∀ file report, inspectVaultCopy file = .ok report → report.recognized = true →
      file.bytes.length ≤ maxFileBytes ∧ ∃ secrets, readSecrets { file with isPrivate := true } = .ok secrets ∧
        report.secretCount = secrets.length ∧ ∀ entry ∈ secrets, Decryptable entry.1 entry.2 := by
  refine ⟨?_, ?_⟩
  · intro writes document file hwrites hcopy
    exact inspect_copy (allSealed_afterWrites hwrites) hcopy
  · intro file report h hrecognized
    exact inspect_sound h hrecognized

/-! ## Samples -/

/-- An encryption for the samples: the text with a tag of zeros. -/
def sampleTagged : TaggedAesGcm where
  encrypt := fun _ _ text _ => text ++ List.replicate 16 0
  decrypt := fun _ _ ciphertext _ => if 16 ≤ ciphertext.length then some (ciphertext.take (ciphertext.length - 16)) else none
  decrypt_encrypt := by
    intro key nonce text data
    simp
  length_encrypt := by
    intro key nonce text data
    simp
  length_decrypt := by
    intro key nonce ciphertext data text h
    split at h
    · rename_i hlong
      cases h
      rw [List.length_take]
      omega
    · cases h

def sampleNonce : Nonce := ⟨List.replicate 12 0, List.length_replicate⟩

/-- One short secret. -/
def shortWrite : Write := .setSecret [] "a" "b" sampleNonce

theorem preflight_recognizes_sample :
    ∃ document, afterWrites sampleTagged [shortWrite] = some document ∧
      inspectVaultCopy ⟨false, true, false, utf8 (text document)⟩ = .ok (recognizedReport 1) ∧
      ∃ secrets, readSecrets ⟨false, true, true, utf8 (text document)⟩ = .ok secrets ∧ secrets.length = 1 := by
  have hcheck : (Call.mk "a" "b" sampleNonce.1).check = .ok () := by decide +kernel
  have hwrite : writeDocument sampleTagged none shortWrite =
      .ok (Dict.empty.set "a" (sealedRecord sampleTagged [] "a" (utf8 "b") sampleNonce)) := by
    unfold writeDocument shortWrite
    dsimp only
    rw [hcheck]
    rfl
  have hfile : afterWrites sampleTagged [shortWrite] =
      some (Dict.empty.set "a" (sealedRecord sampleTagged [] "a" (utf8 "b") sampleNonce)) := by
    unfold afterWrites
    rw [List.foldl_cons, List.foldl_nil, afterWrite, hwrite]
  obtain ⟨hwritten, hread⟩ := preflight_recognizes sampleTagged
  have hsmall : (text (Dict.empty.set "a" (sealedRecord sampleTagged [] "a" (utf8 "b") sampleNonce))).utf8ByteSize ≤ maxVaultBytes := by
    decide +kernel
  have hinspect := (hwritten _ _ ⟨false, true, false, _⟩ hfile ⟨rfl, rfl, rfl⟩).mpr hsmall
  obtain ⟨-, secrets, hsecrets, hcount, -⟩ := hread _ _ hinspect rfl
  exact ⟨_, hfile, hinspect, secrets, hsecrets, hcount.symm⟩

/-- The name of a secret, longer for each. -/
def longName (i : Nat) : String := String.ofList (List.replicate (i + 1) 'a')

/-- A call that stores a value. -/
def longWrite (value : String) (i : Nat) : Write := .setSecret [] (longName i) value sampleNonce

theorem size_replicate (n : Nat) : (String.ofList (List.replicate n 'a')).utf8ByteSize = n := by
  rw [Json.utf8ByteSize_ofList]
  simp [Json.byteLength, show Char.utf8Size 'a' = 1 from rfl]

theorem length_longName (i : Nat) : (longName i).length = i + 1 := by
  rw [longName, String.length_ofList, List.length_replicate]

variable {value : String}

theorem check_longWrite (hlong : value.utf8ByteSize = 16384) {i : Nat} (hi : i < 128) :
    (Call.mk (longName i) value sampleNonce.1).check = .ok () := by
  have hname : ¬ (longName i = "" ∨ 128 < (longName i).length ∨ (longName i).toList.any (fun c => decide (c ∉ nameChars)) = true) := by
    rw [length_longName, not_or, not_or]
    refine ⟨fun h => ?_, by omega, ?_⟩
    · have hlength := congrArg String.length h
      rw [length_longName] at hlength
      exact absurd hlength (Nat.succ_ne_zero i)
    · have ha : 'a' ∈ nameChars := by decide +kernel
      simp [longName, ha]
  have hvalue : ¬ (value = "" ∨ 16384 < value.utf8ByteSize) := by
    rw [hlong, not_or]
    refine ⟨fun h => ?_, by omega⟩
    have hsize := congrArg String.utf8ByteSize h
    rw [hlong] at hsize
    exact absurd hsize (by decide)
  unfold Call.check
  dsimp only
  rw [if_neg hname, if_neg hvalue]

variable {n : Nat}

/-- The text of a document holds all its ciphertexts. -/
theorem ciphertexts_le (h : ∀ e ∈ document.entries, n ≤ e.2.ciphertext.utf8ByteSize) :
    document.size * n ≤ (text document).utf8ByteSize := by
  have hsum : document.size * n ≤ ((secretFields document).map fun f => f.2.size).sum := by
    have hle : ((secretFields document).map fun f => f.2.size).length • n ≤ ((secretFields document).map fun f => f.2.size).sum := by
      refine List.card_nsmul_le_sum _ _ fun size hsize => ?_
      obtain ⟨f, hf, rfl⟩ := List.mem_map.mp hsize
      obtain ⟨e, he, rfl⟩ := List.mem_map.mp hf
      have hquote := Json.utf8ByteSize_le_size_str e.2.ciphertext
      have hciphertext := h e he
      simp only [Record.toJson, Json.size_obj, List.map_cons, List.map_nil, List.sum_cons, List.sum_nil, List.length_cons, List.length_nil]
      omega
    rwa [List.length_map, secretFields, List.length_map, smul_eq_mul] at hle
  have hsecrets : ((secretFields document).map fun f => f.2.size).sum ≤ (Json.obj (secretFields document)).size := by
    rw [Json.size_obj, List.map_map, List.map_map, show (Json.size ∘ fun f : String × Json => f.2) = fun f => f.2.size from rfl]
    omega
  have htext : text document = (Json.obj [("version", .int 1), ("secrets", .obj (secretFields document))]).dumpsSorted := rfl
  rw [htext, Json.utf8ByteSize_dumpsSorted, Json.size_obj]
  simp only [List.map_cons, List.map_nil, List.sum_cons, List.sum_nil]
  omega

theorem ciphertext_size (bytes : List UInt8) : (bytes.length + 2) / 3 * 4 ≤ (urlsafeEncode bytes).utf8ByteSize := by
  refine Nat.le_trans (Nat.le_of_eq ?_) (Json.length_le_utf8ByteSize _)
  rw [urlsafeEncode, String.length_ofList, List.length_map, Base64.length_encode]

/-- The file after so many calls. -/
def longFile (value : String) (n : Nat) : Option Document := afterWrites sampleTagged ((List.range n).map (longWrite value))

theorem longFile_succ (value : String) (n : Nat) :
    longFile value (n + 1) = afterWrite sampleTagged (longFile value n) (longWrite value n) := by
  unfold longFile afterWrites
  rw [List.range_succ, List.map_append, List.foldl_append, List.map_singleton, List.foldl_cons, List.foldl_nil]

/-- A document of so many long secrets. -/
structure LongSecrets (n : Nat) (document : Document) : Prop where
  count : document.size = n
  names : ∀ e ∈ document.entries, e.1.length ≤ n
  ciphertexts : ∀ e ∈ document.entries, 21868 ≤ e.2.ciphertext.utf8ByteSize

/-- One more long secret. -/
theorem LongSecrets.set (hlong : value.utf8ByteSize = 16384) (h : LongSecrets n document) :
    LongSecrets (n + 1) (document.set (longName n) (sealedRecord sampleTagged [] (longName n) (utf8 value) sampleNonce)) := by
  have hnew : longName n ∉ document.keys := by
    intro hmem
    obtain ⟨record, hin⟩ := Dict.mem_keys.mp hmem
    have hlength := h.names _ hin
    rw [length_longName] at hlength
    omega
  have hentries : (document.set (longName n) (sealedRecord sampleTagged [] (longName n) (utf8 value) sampleNonce)).entries =
      document.entries ++ [(longName n, sealedRecord sampleTagged [] (longName n) (utf8 value) sampleNonce)] := by
    rw [Dict.set, dif_neg hnew, Dict.append]
  constructor
  case count => rw [Dict.size_set_of_not_mem hnew, h.count]
  case names =>
    intro e he
    rw [hentries] at he
    obtain hin | hlast := List.mem_append.mp he
    · exact Nat.le_succ_of_le (h.names e hin)
    · rw [List.mem_singleton.mp hlast]
      exact Nat.le_of_eq (length_longName n)
  case ciphertexts =>
    intro e he
    rw [hentries] at he
    obtain hin | hlast := List.mem_append.mp he
    · exact h.ciphertexts e hin
    · rw [List.mem_singleton.mp hlast]
      have hsize := ciphertext_size (sampleTagged.encrypt [] sampleNonce.1 (utf8 value) (utf8 (longName n)))
      rw [sampleTagged.length_encrypt, length_utf8, hlong] at hsize
      exact hsize

/-- Each call adds its secret, until the file is too large to be read. -/
theorem longFile_spec (hlong : value.utf8ByteSize = 16384) (hn : n ≤ 128) (hpos : 0 < n) :
    ∃ document, longFile value n = some document ∧ (maxFileBytes < (text document).utf8ByteSize ∨ LongSecrets n document) := by
  induction n with
  | zero => exact absurd hpos (Nat.lt_irrefl 0)
  | succ n ih =>
    have hcheck := check_longWrite hlong (show n < 128 by omega)
    rw [longFile_succ]
    obtain rfl | hmore := Nat.eq_zero_or_pos n
    · have hwrite : writeDocument sampleTagged (longFile value 0) (longWrite value 0) =
          .ok (Dict.empty.set (longName 0) (sealedRecord sampleTagged [] (longName 0) (utf8 value) sampleNonce)) := by
        unfold writeDocument longWrite
        dsimp only
        rw [hcheck]
        rfl
      unfold afterWrite
      rw [hwrite]
      have hempty : LongSecrets 0 .empty := ⟨rfl, fun e he => (nomatch he), fun e he => (nomatch he)⟩
      exact ⟨_, rfl, .inr (hempty.set hlong)⟩
    · obtain ⟨document, hfile, hor⟩ := ih (by omega) hmore
      rw [hfile]
      by_cases hlarge : maxFileBytes < (text document).utf8ByteSize
      · have hload : loadDocument (some (.document document)) = .error (.runtimeError "vault file is invalid") := if_pos hlarge
        unfold afterWrite writeDocument longWrite
        dsimp only
        rw [hcheck, Option.map_some, hload]
        exact ⟨document, rfl, .inl hlarge⟩
      · have hload := SecretVault.loadDocument_document (Nat.not_lt.mp hlarge)
        unfold afterWrite writeDocument longWrite
        dsimp only
        rw [hcheck, Option.map_some, hload]
        exact ⟨_, rfl, .inr ((hor.resolve_left hlarge).set hlong)⟩

/-- Forty-eight secrets of the longest values make a file that the vault writes and the preflight refuses. -/
theorem large_vault_refused :
    ∃ document, longFile (String.ofList (List.replicate 16384 'a')) 48 = some document ∧
      inspectVaultCopy ⟨false, true, true, utf8 (text document)⟩ ≠ .ok (recognizedReport document.size) := by
  obtain ⟨document, hfile, hor⟩ := longFile_spec (size_replicate 16384) (show 48 ≤ 128 by decide) (show 0 < 48 by decide)
  refine ⟨document, hfile, fun h => ?_⟩
  have hsmall := (inspect_copy (allSealed_afterWrites hfile) ⟨rfl, rfl, rfl⟩).mp h
  obtain hlarge | hlong := hor
  · exact absurd hsmall (Nat.not_le.mpr hlarge)
  · have hsize := ciphertexts_le hlong.ciphertexts
    rw [hlong.count] at hsize
    exact absurd (Nat.le_trans hsize hsmall) (by decide)

end RestorePreflight

end XbowPerso
