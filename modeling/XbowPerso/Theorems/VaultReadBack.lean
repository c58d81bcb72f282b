import XbowPerso.SecretVault

/-!
# Secrets read back

A call that is alone from its reading to its renaming adds its secret to the document of the file, and the file can be read again
when it is not too large. A call that reads in between writes a document without the secret.
-/

namespace XbowPerso

namespace SecretVault

variable {aes : AesGcm} {key : List UInt8} {s : State}

/-! ## A record is revealed -/

theorem decodeUtf8_utf8 (t : String) : decodeUtf8 (utf8 t) = some t := by
  have hbytes : (⟨(utf8 t).toArray⟩ : ByteArray) = t.toUTF8 := rfl
  have hvalid : t.toUTF8.IsValidUTF8 := t.isValidUTF8
  unfold decodeUtf8 String.fromUTF8?
  rw [hbytes, dif_pos hvalid]
  rfl

theorem urlsafe_digit : ∀ n < 64, (fun c => if c = '-' then '+' else if c = '_' then '/' else c)
    ((fun c => if c = '+' then '-' else if c = '/' then '_' else c) (Base64.digit n)) = Base64.digit n := by
  decide

theorem mem_encode (bytes : List UInt8) : ∀ c ∈ Base64.encode bytes, c = '=' ∨ ∃ n < 64, c = Base64.digit n := by
  fun_induction Base64.encode bytes with
  | case1 => simp
  | case2 a =>
    have ha := a.toNat_lt
    simp only [List.mem_cons, List.not_mem_nil, or_false]
    rintro c (rfl | rfl | rfl | rfl)
    · exact .inr ⟨_, by omega, rfl⟩
    · exact .inr ⟨_, by omega, rfl⟩
    · exact .inl rfl
    · exact .inl rfl
  | case3 a b =>
    have ha := a.toNat_lt
    have hb := b.toNat_lt
    simp only [List.mem_cons, List.not_mem_nil, or_false]
    rintro c (rfl | rfl | rfl | rfl)
    · exact .inr ⟨_, by omega, rfl⟩
    · exact .inr ⟨_, by omega, rfl⟩
    · exact .inr ⟨_, by omega, rfl⟩
    · exact .inl rfl
  | case4 a b c rest ih =>
    have ha := a.toNat_lt
    have hb := b.toNat_lt
    have hc := c.toNat_lt
    simp only [List.mem_cons]
    rintro d (rfl | rfl | rfl | rfl | hd)
    · exact .inr ⟨_, by omega, rfl⟩
    · exact .inr ⟨_, by omega, rfl⟩
    · exact .inr ⟨_, by omega, rfl⟩
    · exact .inr ⟨_, by omega, rfl⟩
    · exact ih d hd

theorem urlsafeDecode_urlsafeEncode (bytes : List UInt8) : urlsafeDecode (urlsafeEncode bytes) = some bytes := by
  have hsame : ((Base64.encode bytes).map fun c => if c = '+' then '-' else if c = '/' then '_' else c).map
      (fun c => if c = '-' then '+' else if c = '_' then '/' else c) = Base64.encode bytes := by
    rw [List.map_map]
    refine (List.map_congr_left fun c hc => ?_).trans (List.map_id _)
    rcases mem_encode bytes c hc with rfl | ⟨n, hn, rfl⟩
    · rfl
    · exact urlsafe_digit n hn
  unfold urlsafeDecode urlsafeEncode
  rw [String.toList_ofList, hsame, Base64.decode_encode]

theorem reveal_record (call : Call) : (call.record aes key).reveal aes key call.name = some call.value := by
  unfold Record.reveal Call.record
  rw [urlsafeDecode_urlsafeEncode, urlsafeDecode_urlsafeEncode]
  dsimp only
  rw [aes.decrypt_encrypt]
  exact decodeUtf8_utf8 call.value

theorem loadDocument_document {document : Document} (h : (text document).utf8ByteSize ≤ maxFileBytes) :
    loadDocument (some (.document document)) = .ok document := if_neg (not_lt.mpr h)

/-! ## The invariant -/

/-- The file holds the last record of every name whose call returned. -/
def Keeps (aes : AesGcm) (key : List UInt8) (s : State) : Prop :=
  ∃ document, loadDocument s.file = .ok document ∧
    ∀ name call, s.done.find? (fun c => decide (c.name = name)) = some call → document.get? name = some (call.record aes key)

/-- The temporary file of a call that is alone. -/
def tmpOf (id : Nat) (phase : Phase) : Option (Nat × Content) :=
  match phase.progress with
  | .loaded => none
  | .opened => some (id, .empty)
  | .written => some (id, .document phase.document)

/-- Nothing is in progress, or one call is, with the document of the file and its own record. -/
def Alone (aes : AesGcm) (key : List UInt8) (s : State) : Prop :=
  (s.pending.entries = [] ∧ s.tmp = none) ∨
    ∃ id phase document, s.pending.entries = [(id, phase)] ∧ s.tmp = tmpOf id phase ∧ loadDocument s.file = .ok document ∧
      phase.document = document.set phase.call.name (phase.call.record aes key) ∧ (text phase.document).utf8ByteSize ≤ maxFileBytes

variable {d : Dict Nat Phase} {id : Nat} {phase : Phase}

theorem get?_singleton {k : Nat} (h : d.entries = [(id, phase)]) :
    d.get? k = if k = id then some phase else none := by
  unfold Dict.get?
  rw [h]
  by_cases hk : k = id
  · simp [hk]
  · have hk' : ¬ id = k := fun h => hk h.symm
    simp [hk, hk']

theorem get?_nil {k : Nat} (h : d.entries = []) : d.get? k = none := by
  unfold Dict.get?
  rw [h]
  rfl

theorem erase_singleton (h : d.entries = [(id, phase)]) :
    (d.erase id).entries = [] := by
  unfold Dict.erase Dict.filter
  dsimp only
  rw [h]
  simp

theorem set_singleton (h : d.entries = [(id, phase)]) (phase' : Phase) :
    (d.set id phase').entries = [(id, phase')] := by
  have hsplit : d.entries = [] ++ (id, phase) :: [] := h
  exact Dict.entries_set_of_append hsplit

theorem set_nil (h : d.entries = []) (id : Nat) (phase : Phase) : (d.set id phase).entries = [(id, phase)] := by
  have hnot : id ∉ d.keys := by
    unfold Dict.keys
    rw [h]
    exact List.not_mem_nil
  rw [Dict.set, dif_neg hnot]
  show d.entries ++ [(id, phase)] = _
  rw [h, List.nil_append]

/-! ## The steps -/

variable {call : Call}

theorem start_keeps (hkeeps : Keeps aes key s) (halone : Alone aes key s)
    (hfits : Fits aes key s (.start id call)) : Keeps aes key (start aes key s id call) ∧ Alone aes key (start aes key s id call) := by
  obtain ⟨hnone, hsize⟩ := hfits
  unfold start
  split
  · rename_i document _ _ hload
    refine ⟨hkeeps, .inr ⟨id, _, document, set_nil hnone id _, ?_, hload, rfl, hsize document hload⟩⟩
    rcases halone with ⟨-, htmp⟩ | ⟨id', phase, document', hentries, -⟩
    · exact htmp
    · rw [hnone] at hentries
      cases hentries
  · exact ⟨hkeeps, halone⟩

/-- The document that a call writes holds its record and those of the other names. -/
theorem keeps_written {document : Document}
    (hdone : ∀ name c, s.done.find? (fun c => decide (c.name = name)) = some c → document.get? name = some (c.record aes key))
    (name : String) (c : Call) (hfind : (call :: s.done).find? (fun c => decide (c.name = name)) = some c) :
    (document.set call.name (call.record aes key)).get? name = some (c.record aes key) := by
  by_cases hname : call.name = name
  · rw [List.find?_cons_of_pos (by simpa using hname)] at hfind
    cases hfind
    rw [← hname]
    exact Dict.get?_set_self
  · rw [List.find?_cons_of_neg (by simpa using hname)] at hfind
    exact (Dict.get?_set_of_ne fun h => hname h.symm).trans (hdone name c hfind)

theorem advance_keeps (hkeeps : Keeps aes key s) (halone : Alone aes key s) (id : Nat) :
    Keeps aes key (advance s id) ∧ Alone aes key (advance s id) := by
  rcases halone with ⟨hnone, htmp⟩ | ⟨id', phase, document, hentries, htmp, hload, hdocument, hsize⟩
  · unfold advance
    rw [get?_nil hnone]
    exact ⟨hkeeps, .inl ⟨hnone, htmp⟩⟩
  · unfold advance
    rw [get?_singleton hentries]
    by_cases hid : id = id'
    · subst hid
      rw [if_pos rfl]
      obtain ⟨call, written, progress⟩ := phase
      dsimp only at hdocument hsize ⊢
      cases progress with
      | loaded =>
        rw [show s.tmp = none from htmp]
        exact ⟨hkeeps, .inr ⟨id, _, document, set_singleton hentries _, rfl, hload, hdocument, hsize⟩⟩
      | opened =>
        rw [show s.tmp = some (id, .empty) from htmp]
        dsimp only [Option.map_some]
        rw [if_pos rfl]
        exact ⟨hkeeps, .inr ⟨id, _, document, set_singleton hentries _, rfl, hload, hdocument, hsize⟩⟩
      | written =>
        rw [show s.tmp = some (id, .document written) from htmp]
        refine ⟨⟨written, loadDocument_document hsize, ?_⟩, .inl ⟨erase_singleton hentries, rfl⟩⟩
        obtain ⟨document', hload', hdone⟩ := hkeeps
        rw [hload] at hload'
        cases hload'
        rw [hdocument]
        exact keeps_written hdone
    · rw [if_neg hid]
      exact ⟨hkeeps, .inr ⟨id', phase, document, hentries, htmp, hload, hdocument, hsize⟩⟩

/-- What the file keeps is read back. -/
theorem Keeps.readsBack (h : Keeps aes key s) : ReadsBack aes key s := by
  obtain ⟨document, hload, hdone⟩ := h
  refine ⟨⟨document, hload⟩, fun name call hfind => ?_⟩
  have hname : call.name = name := by simpa using List.find?_some hfind
  unfold getSecret
  rw [hload]
  dsimp only
  rw [hdone name call hfind, ← hname]
  dsimp only
  rw [reveal_record]

theorem keeps_run (hkeeps : Keeps aes key s) (halone : Alone aes key s) {events : List Event} (hfit : AllFit aes key s events) :
    Keeps aes key (run aes key s events) := by
  induction events generalizing s with
  | nil => exact hkeeps
  | cons e events ih =>
    obtain ⟨hfits, hrest⟩ := hfit
    cases e with
    | start id call =>
      obtain ⟨hkeeps', halone'⟩ := start_keeps hkeeps halone hfits
      exact ih hkeeps' halone' hrest
    | advance id =>
      obtain ⟨hkeeps', halone'⟩ := advance_keeps hkeeps halone id
      exact ih hkeeps' halone' hrest

/-- In a run in which every call is alone and writes a file that can be read, every secret reads back its last value. -/
theorem readsBack_of_allFit (aes : AesGcm) (key : List UInt8) (events : List Event) (hfit : AllFit aes key .init events) :
    ReadsBack aes key (run aes key .init events) := by
  have hkeeps : Keeps aes key .init := ⟨.empty, rfl, fun name call h => by cases h⟩
  exact (keeps_run hkeeps (.inl ⟨rfl, rfl⟩) hfit).readsBack

/-! ## Two calls at once -/

/-- An encryption that writes the text in the clear. -/
def sampleAes : AesGcm := ⟨fun _ _ text _ => text, fun _ _ text _ => some text, fun _ _ _ _ => rfl⟩

def sampleNonce : List UInt8 := [1, 2, 3, 4, 5, 6, 7, 8, 9, 10, 11, 12]

def firstCall : Call := ⟨"api_key", "alpha", sampleNonce⟩

def secondCall : Call := ⟨"webhook_key", "beta", sampleNonce⟩

/-- The first call returns before the second one begins. -/
def oneByOne : List Event :=
  [.start 0 firstCall, .advance 0, .advance 0, .advance 0, .start 1 secondCall, .advance 1, .advance 1, .advance 1]

/-- Both calls read the file before one of them writes it. -/
def atOnce : List Event :=
  [.start 0 firstCall, .start 1 secondCall, .advance 0, .advance 0, .advance 0, .advance 1, .advance 1, .advance 1]

/-- Whether the file that a call is about to write can be read. -/
def fitsIn (s : State) (call : Call) : Bool :=
  match loadDocument s.file with
  | .error _ => true
  | .ok document => decide ((text (document.set call.name (call.record sampleAes []))).utf8ByteSize ≤ maxFileBytes)

theorem fits_of_fitsIn {s : State} (hnone : s.pending.entries = []) (h : fitsIn s call = true) :
    Fits sampleAes [] s (.start id call) := by
  refine ⟨hnone, fun document hload => ?_⟩
  unfold fitsIn at h
  rw [hload] at h
  exact of_decide_eq_true h

theorem readsBack_of_allFit_sample : ReadsBack sampleAes [] (run sampleAes [] .init oneByOne) := by
  have hsizes : fitsIn .init firstCall = true ∧ fitsIn (run sampleAes [] .init (oneByOne.take 4)) secondCall = true := by
    decide +kernel
  refine readsBack_of_allFit sampleAes [] oneByOne ?_
  exact ⟨fits_of_fitsIn rfl hsizes.1, trivial, trivial, trivial, fits_of_fitsIn rfl hsizes.2, trivial, trivial, trivial, trivial⟩

/-- The two secrets have different names. -/
example : firstCall.name ≠ secondCall.name := by decide +kernel

/-- The second call writes the document that it read before the first one wrote, and the first secret is gone. -/
theorem not_readsBack_atOnce : ¬ ReadsBack sampleAes [] (run sampleAes [] .init atOnce) := by
  rintro ⟨-, hreads⟩
  have hlost : (run sampleAes [] .init atOnce).done.find? (fun c => decide (c.name = "api_key")) = some firstCall ∧
      (getSecret sampleAes [] (run sampleAes [] .init atOnce).file "api_key").toOption = none := by
    decide +kernel
  have hvalue := hlost.2
  rw [hreads "api_key" firstCall hlost.1] at hvalue
  cases hvalue

end SecretVault

end XbowPerso
