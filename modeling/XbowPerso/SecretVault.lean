import XbowPerso.Identifier
import XbowPerso.Lib.Base64
import XbowPerso.ManifestAdmission

/-!
# The vault of secrets

`set_secret` reads the vault file, adds a record, and writes the file through a temporary file beside it that it creates exclusively,
writes and renames. There is no lock: a call goes through these steps one by one, and the steps of other calls may come between. The
file is given by the document that it holds; its size is that of the text of the document.
-/

namespace XbowPerso

/-- Authenticated encryption: a key, a nonce, a text and the data that goes with it. -/
structure AesGcm where
  encrypt : List UInt8 → List UInt8 → List UInt8 → List UInt8 → List UInt8
  decrypt : List UInt8 → List UInt8 → List UInt8 → List UInt8 → Option (List UInt8)
  decrypt_encrypt : ∀ key nonce text data, decrypt key nonce (encrypt key nonce text data) data = some text

namespace SecretVault

/-- `bytes.decode("utf-8")`; none for a `UnicodeDecodeError`. -/
def decodeUtf8 (bytes : List UInt8) : Option String := String.fromUTF8? ⟨bytes.toArray⟩

/-- `base64.urlsafe_b64encode(content).decode("ascii")`. -/
def urlsafeEncode (bytes : List UInt8) : String :=
  String.ofList ((Base64.encode bytes).map fun c => if c = '+' then '-' else if c = '/' then '_' else c)

/-- `base64.urlsafe_b64decode(text.encode("ascii"))`; none where it raises. -/
def urlsafeDecode (text : String) : Option (List UInt8) :=
  Base64.decode (text.toList.map fun c => if c = '-' then '+' else if c = '_' then '/' else c)

/-- The record of a secret. -/
structure Record where
  nonce : String
  ciphertext : String
  deriving DecidableEq

/-- The secrets of a document of version 1. -/
abbrev Document := Dict String Record

def Record.toJson (r : Record) : Json := .obj [("nonce", .str r.nonce), ("ciphertext", .str r.ciphertext)]

/-- The text that `_atomic_write` writes. -/
def text (document : Document) : String :=
  (Json.obj [("version", .int 1), ("secrets", .obj (document.entries.map fun e => (e.1, e.2.toJson)))]).dumpsSorted

/-- What a file holds: nothing yet, or a document. -/
inductive Content where
  | empty
  | document (d : Document)

/-- The largest file that is read. -/
def maxFileBytes : Nat := 1048576

/-- `_load_document`. -/
def loadDocument : Option Content → Except PyError Document
  | none => .ok .empty
  | some .empty => .error (.runtimeError "vault file is invalid")
  | some (.document d) => if maxFileBytes < (text d).utf8ByteSize then .error (.runtimeError "vault file is invalid") else .ok d

/-- A call of `set_secret`, with the nonce that it draws. -/
structure Call where
  name : String
  value : String
  nonce : List UInt8
  deriving DecidableEq

def nameChars : List Char := "abcdefghijklmnopqrstuvwxyzABCDEFGHIJKLMNOPQRSTUVWXYZ0123456789_.-".toList

/-- The checks of `set_secret`. -/
def Call.check (call : Call) : Except PyError Unit :=
  if call.name = "" ∨ 128 < call.name.length ∨ call.name.toList.any (fun c => decide (c ∉ nameChars)) = true then
    .error (.runtimeError "secret name is invalid")
  else if call.value = "" ∨ 16384 < call.value.utf8ByteSize then .error (.runtimeError "secret value is invalid")
  else .ok ()

variable (aes : AesGcm) (key : List UInt8)

/-- The record of a call. -/
def Call.record (call : Call) : Record :=
  ⟨urlsafeEncode call.nonce, urlsafeEncode (aes.encrypt key call.nonce (utf8 call.value) (utf8 call.name))⟩

/-- What `get_secret` makes of a record; none where it raises. -/
def Record.reveal (r : Record) (name : String) : Option String :=
  match urlsafeDecode r.nonce, urlsafeDecode r.ciphertext with
  | some nonce, some ciphertext =>
    match aes.decrypt key nonce ciphertext (utf8 name) with
    | some plaintext => decodeUtf8 plaintext
    | none => none
  | _, _ => none

/-- `get_secret`. -/
def getSecret (file : Option Content) (name : String) : Except PyError String :=
  match loadDocument file with
  | .error e => .error e
  | .ok document =>
    match document.get? name with
    | none => .error (.runtimeError "secret not found")
    | some r =>
      match r.reveal aes key name with
      | none => .error (.runtimeError "secret decryption failed")
      | some value => .ok value

/-- How far a call is: it has the document that it will write, and has created the temporary file, or written it. -/
inductive Progress where
  | loaded | opened | written
  deriving DecidableEq

structure Phase where
  call : Call
  document : Document
  progress : Progress

/-- The vault file, the temporary file and who created it, the calls in progress, and the calls that returned, the last one first. -/
structure State where
  file : Option Content
  tmp : Option (Nat × Content)
  pending : Dict Nat Phase
  done : List Call

/-- A vault that has no file yet. -/
def State.init : State := ⟨none, none, .empty, []⟩

/-- A call begins, under a number of its own, or goes one step further. -/
inductive Event where
  | start (id : Nat) (call : Call)
  | advance (id : Nat)

/-- A call up to the reading of the file. A call that raises is over. -/
def start (s : State) (id : Nat) (call : Call) : State :=
  match s.pending.get? id, call.check, loadDocument s.file with
  | none, .ok (), .ok document => { s with pending := s.pending.set id ⟨call, document.set call.name (call.record aes key), .loaded⟩ }
  | _, _, _ => s

/-- The next step of `_atomic_write`. -/
def advance (s : State) (id : Nat) : State :=
  match s.pending.get? id with
  | none => s
  | some phase =>
    match phase.progress, s.tmp with
    -- the temporary file is there already: it is removed, whoever created it, and the call raises
    | .loaded, some _ => { s with tmp := none, pending := s.pending.erase id }
    | .loaded, none => { s with tmp := some (id, .empty), pending := s.pending.set id { phase with progress := .opened } }
    -- a file that was removed meanwhile is written to without an error
    | .opened, tmp =>
      { s with
        tmp := tmp.map fun t => if t.1 = id then (id, .document phase.document) else t
        pending := s.pending.set id { phase with progress := .written } }
    | .written, none => { s with pending := s.pending.erase id }
    | .written, some (_, content) =>
      { file := some content, tmp := none, pending := s.pending.erase id, done := phase.call :: s.done }

def step (s : State) : Event → State
  | .start id call => start aes key s id call
  | .advance id => advance s id

/-- The state after some events. -/
def run (s : State) (events : List Event) : State := events.foldl (step aes key) s

/-- Every name whose call returned reads back the value of its last call, and the vault can be read. -/
def ReadsBack (s : State) : Prop :=
  (∃ document, loadDocument s.file = .ok document) ∧
    ∀ name call, s.done.find? (fun c => decide (c.name = name)) = some call → getSecret aes key s.file name = .ok call.value

/-- A call begins while no other is in progress, and the file that it is about to write is not too large to be read. -/
def Fits (s : State) : Event → Prop
  | .advance _ => True
  | .start _ call => s.pending.entries = [] ∧
      ∀ document, loadDocument s.file = .ok document → (text (document.set call.name (call.record aes key))).utf8ByteSize ≤ maxFileBytes

/-- Every event of a run meets the condition. -/
def AllFit : State → List Event → Prop
  | _, [] => True
  | s, e :: events => Fits aes key s e ∧ AllFit (step aes key s e) events

end SecretVault

end XbowPerso
