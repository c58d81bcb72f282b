import Mathlib.Data.List.SplitBy
import XbowPerso.Lib.PyUrl

/-!
# URLs and their queries as Python reads and writes them

`urllib.parse.urlparse` and `geturl`, over `urlsplit`: a semicolon with nothing behind it is not written again. `urlencode`, and
`parse_qsl` with blank values kept: what is written is read back, since a character outside the safe ones becomes the escapes of its
UTF-8 bytes and the separators are never safe.
-/

namespace PyUrl

/-- The schemes whose paths have parameters. -/
def usesParams : List (List Char) :=
  [[], "ftp".toList, "hdl".toList, "prospero".toList, "http".toList, "https".toList, "shttp".toList, "rtsp".toList, "rtsps".toList,
    "sip".toList, "sips".toList, "mms".toList, "sftp".toList, "tel".toList]

structure ParseResult where
  scheme : List Char
  netloc : List Char
  path : List Char
  params : List Char
  query : List Char
  fragment : List Char

/-- `_splitparams`: the parameters of the last segment. -/
def splitParams (path : List Char) : List Char × List Char :=
  let last := afterLast '/' path
  if ';' ∈ last then (path.rdropWhile (· ≠ '/') ++ before ';' last, after ';' last) else (path, [])

theorem any_usesParams (scheme : List Char) : (usesParams.any fun known => decide (known = scheme)) = true ↔ scheme ∈ usesParams := by
  simp only [List.any_eq_true, decide_eq_true_eq, exists_eq_right]

instance (scheme : List Char) : Decidable (scheme ∈ usesParams) := decidable_of_iff _ (any_usesParams scheme)

/-- `urlparse(url)`; none for a `ValueError`. -/
def urlparse (u : Unicode) (url : List Char) : Option ParseResult :=
  (urlsplit u url).map fun r =>
    let split := if r.scheme ∈ usesParams ∧ ';' ∈ r.path then splitParams r.path else (r.path, [])
    ⟨r.scheme, r.netloc, split.1, split.2, r.query, r.fragment⟩

namespace ParseResult

variable (r : ParseResult)

def split : SplitResult := ⟨r.scheme, r.netloc, r.path, r.query, r.fragment⟩

def hostname (u : Unicode) : Option (List Char) := r.split.hostname u

def username : List Char := r.split.username

def password : List Char := r.split.password

/-- The path with its parameters. -/
def pathParams : List Char := if r.params = [] then r.path else r.path ++ ';' :: r.params

/-- What follows the network location. -/
def tail : List Char :=
  (if r.pathParams = [] ∨ r.pathParams.head? = some '/' then r.pathParams else '/' :: r.pathParams) ++
    ((if r.query = [] then [] else '?' :: r.query) ++ (if r.fragment = [] then [] else '#' :: r.fragment))

/-- `geturl()`, of a result with a scheme and a network location. -/
def geturl : List Char := r.scheme ++ ':' :: '/' :: '/' :: (r.netloc ++ r.tail)

end ParseResult

end PyUrl

namespace PyQuery

open PyUrl (before after isAscii)

/-! ## Writing -/

/-- The characters that `quote` leaves alone. -/
def isSafe (c : Char) : Bool := c.isAlphanum || c = '_' || c = '.' || c = '-' || c = '~'

/-- A digit of an escape. -/
def hexDigit (n : Nat) : Char := if n < 10 then Char.ofNat (48 + n) else Char.ofNat (55 + n)

def quoteByte (b : UInt8) : List Char := ['%', hexDigit (b.toNat / 16), hexDigit (b.toNat % 16)]

/-- A blank becomes a plus. -/
def quoteChar (c : Char) : List Char :=
  if c = ' ' then ['+']
  else if isSafe c = true then [c]
  else (String.utf8EncodeChar c).flatMap quoteByte

/-- `quote_plus(s)` -/
def quotePlus (s : List Char) : List Char := s.flatMap quoteChar

def quotePair (pair : List Char × List Char) : List Char := quotePlus pair.1 ++ '=' :: quotePlus pair.2

/-- `urlencode(pairs)` -/
def urlencode (pairs : List (List Char × List Char)) : List Char := ['&'].intercalate (pairs.map quotePair)

/-! ## Reading -/

/-- `unquote_to_bytes` of a text of ASCII characters: an escape without two digits stays. -/
def unquoteToBytes : List Char → List UInt8
  | [] => []
  | c :: rest =>
    if c = '%' then
      match rest with
      | high :: low :: tail =>
        if IpAddress.isHexDigit high = true ∧ IpAddress.isHexDigit low = true then
          UInt8.ofNat (IpAddress.value 16 [high, low]) :: unquoteToBytes tail
        else UInt8.ofNat c.toNat :: unquoteToBytes (high :: low :: tail)
      | other => UInt8.ofNat c.toNat :: unquoteToBytes other
    else UInt8.ofNat c.toNat :: unquoteToBytes rest

def isContinuation (b : UInt8) : Bool := 0x80 ≤ b && b ≤ 0xBF

/-- The bytes that may follow a first byte. -/
def mayFollow (first second : UInt8) : Bool :=
  isContinuation second && (first != 0xE0 || 0xA0 ≤ second) && (first != 0xED || second ≤ 0x9F) &&
    (first != 0xF0 || 0x90 ≤ second) && (first != 0xF4 || second ≤ 0x8F)

/-- How many bytes one replacement character stands for: what could still have become a character. -/
def malformed : List UInt8 → Nat
  | first :: second :: rest =>
    if 0xE0 ≤ first ∧ first ≤ 0xF4 ∧ mayFollow first second = true then
      if 0xF0 ≤ first ∧ (rest.head?.map isContinuation).getD false = true then 3 else 2
    else 1
  | _ => 1

/-- `bytes.decode("utf-8", errors="replace")`; the first argument bounds the number of characters. -/
def decodeFrom : Nat → List UInt8 → List Char
  | 0, _ => []
  | _ + 1, [] => []
  | n + 1, b :: bytes =>
    match ByteArray.utf8DecodeChar? (b :: bytes).toByteArray 0 with
    | some c => c :: decodeFrom n ((b :: bytes).drop c.utf8Size)
    | none => '\uFFFD' :: decodeFrom n ((b :: bytes).drop (malformed (b :: bytes)))

def decodeReplace (bytes : List UInt8) : List Char := decodeFrom bytes.length bytes

/-- `unquote(s)`: the runs of ASCII characters are decoded, one at a time. -/
def unquote (s : List Char) : List Char :=
  if '%' ∉ s then s
  else
    (s.splitBy fun a b => decide (a.toNat < 128) == decide (b.toNat < 128)).flatMap fun run =>
      if isAscii run = true then decodeReplace (unquoteToBytes run) else run

def unquotePlus (s : List Char) : List Char := unquote (s.map fun c => if c = '+' then ' ' else c)

/-- `parse_qsl(query, keep_blank_values=True)`: a piece without an equals sign has a blank value. -/
def parseQsl (query : List Char) : List (List Char × List Char) :=
  ((query.splitOn '&').filter fun piece => decide (piece ≠ [])).map fun piece =>
    (unquotePlus (before '=' piece), unquotePlus (after '=' piece))

/-! ## What is written is read back -/

theorem hexDigit_facts : ∀ n < 16, IpAddress.isHexDigit (hexDigit n) = true ∧ IpAddress.digitValue (hexDigit n) = n ∧
    (hexDigit n).isAlphanum = true := by
  decide

/-- The characters of a query that was written. -/
def isQueryChar (c : Char) : Bool := isSafe c || c = '%' || c = '+'

theorem facts_of_isSafe {c : Char} (h : isSafe c = true) :
    c.toNat < 128 ∧ 32 < c.toNat ∧ c ≠ '%' ∧ c ≠ '+' ∧ c ≠ '=' ∧ c ≠ '&' ∧ c ≠ '#' := by
  unfold isSafe at h
  simp only [Bool.or_eq_true, decide_eq_true_eq] at h
  rcases h with (((h | rfl) | rfl) | rfl) | rfl
  · delta Char.isAlphanum Char.isAlpha Char.isUpper Char.isLower Char.isDigit at h
    simp only [Bool.or_eq_true, Bool.and_eq_true, decide_eq_true_eq, UInt32.le_iff_toNat_le] at h
    have hrange : (48 ≤ c.toNat ∧ c.toNat ≤ 57) ∨ (65 ≤ c.toNat ∧ c.toNat ≤ 90) ∨ (97 ≤ c.toNat ∧ c.toNat ≤ 122) := by
      rcases h with (⟨hge, hle⟩ | ⟨hge, hle⟩) | ⟨hge, hle⟩
      · exact .inr (.inl ⟨hge, hle⟩)
      · exact .inr (.inr ⟨hge, hle⟩)
      · exact .inl ⟨hge, hle⟩
    refine ⟨by omega, by omega, ?_, ?_, ?_, ?_, ?_⟩ <;> rintro rfl <;> revert hrange <;> decide
  all_goals decide

theorem isQueryChar_quoteByte (b : UInt8) : ∀ c ∈ quoteByte b, isQueryChar c = true := by
  have hb : b.toNat < 256 := b.toNat_lt
  have hhex : ∀ n < 16, isQueryChar (hexDigit n) = true := by decide
  intro c hc
  simp only [quoteByte, List.mem_cons, List.not_mem_nil, or_false] at hc
  rcases hc with rfl | rfl | rfl
  · rfl
  · exact hhex _ (by omega)
  · exact hhex _ (by omega)

theorem isQueryChar_quotePlus (s : List Char) : ∀ c ∈ quotePlus s, isQueryChar c = true := by
  intro c hc
  obtain ⟨d, -, hc⟩ := List.mem_flatMap.mp hc
  unfold quoteChar at hc
  split at hc
  · rw [List.mem_singleton.mp hc]
    rfl
  · split at hc
    · rename_i hsafe
      rw [List.mem_singleton.mp hc, isQueryChar, hsafe]
      rfl
    · obtain ⟨b, -, hc⟩ := List.mem_flatMap.mp hc
      exact isQueryChar_quoteByte b c hc

theorem facts_of_isQueryChar {c : Char} (h : isQueryChar c = true) :
    c.toNat < 128 ∧ 32 < c.toNat ∧ c ≠ '=' ∧ c ≠ '&' ∧ c ≠ '#' := by
  unfold isQueryChar at h
  simp only [Bool.or_eq_true, decide_eq_true_eq] at h
  rcases h with (h | rfl) | rfl
  · obtain ⟨h1, h2, -, -, h3, h4, h5⟩ := facts_of_isSafe h
    exact ⟨h1, h2, h3, h4, h5⟩
  all_goals decide

/-- An escape is read as its byte. -/
theorem unquoteToBytes_quoteByte (b : UInt8) (rest : List Char) :
    unquoteToBytes (quoteByte b ++ rest) = b :: unquoteToBytes rest := by
  have hb : b.toNat < 256 := b.toNat_lt
  obtain ⟨hhigh, hhighValue, -⟩ := hexDigit_facts (b.toNat / 16) (by omega)
  obtain ⟨hlow, hlowValue, -⟩ := hexDigit_facts (b.toNat % 16) (by omega)
  have hvalue : IpAddress.value 16 [hexDigit (b.toNat / 16), hexDigit (b.toNat % 16)] = b.toNat := by
    simp only [IpAddress.value, List.foldl_cons, List.foldl_nil, hhighValue, hlowValue]
    omega
  simp only [quoteByte, List.cons_append, List.nil_append]
  rw [unquoteToBytes, if_pos rfl, if_pos ⟨hhigh, hlow⟩, hvalue, UInt8.ofNat_toNat]

theorem unquoteToBytes_of_ne {c : Char} (h : c ≠ '%') (rest : List Char) :
    unquoteToBytes (c :: rest) = UInt8.ofNat c.toNat :: unquoteToBytes rest := by
  rcases rest with _ | ⟨high, _ | ⟨low, tail⟩⟩ <;> simp [unquoteToBytes, h]

theorem unquoteToBytes_quoteBytes (bytes : List UInt8) (rest : List Char) :
    unquoteToBytes (bytes.flatMap quoteByte ++ rest) = bytes ++ unquoteToBytes rest := by
  induction bytes with
  | nil => rfl
  | cons b bytes ih =>
    rw [List.flatMap_cons, List.append_assoc, unquoteToBytes_quoteByte, ih, List.cons_append]

/-- A text with its plus signs read as blanks. -/
def spaced (s : List Char) : List Char := s.map fun c => if c = '+' then ' ' else c

theorem spaced_of_not_mem {s : List Char} (h : '+' ∉ s) : spaced s = s := by
  unfold spaced
  refine (List.map_congr_left fun c hc => ?_).trans (List.map_id s)
  have hne : c ≠ '+' := by
    rintro rfl
    exact h hc
  rw [if_neg hne, id]

theorem utf8EncodeChar_of_ascii {c : Char} (h : c.toNat < 128) : String.utf8EncodeChar c = [UInt8.ofNat c.toNat] := by
  have hle : c.val.toNat ≤ 0x7f := by
    have := h
    rw [Char.toNat] at this
    omega
  unfold String.utf8EncodeChar
  dsimp only
  rw [if_pos hle]
  rfl

theorem plus_not_mem_quoteBytes (bytes : List UInt8) : '+' ∉ bytes.flatMap quoteByte := by
  intro hmem
  obtain ⟨b, -, hmem⟩ := List.mem_flatMap.mp hmem
  have hb : b.toNat < 256 := b.toNat_lt
  have hhex : ∀ n < 16, hexDigit n ≠ '+' := by decide
  simp only [quoteByte, List.mem_cons, List.not_mem_nil, or_false] at hmem
  rcases hmem with h | h | h
  · exact absurd h (by decide)
  · exact hhex _ (by omega) h.symm
  · exact hhex _ (by omega) h.symm

/-- A character that was written is read as its bytes. -/
theorem unquoteToBytes_quoteChar (c : Char) (rest : List Char) :
    unquoteToBytes (spaced (quoteChar c) ++ rest) = String.utf8EncodeChar c ++ unquoteToBytes rest := by
  unfold quoteChar
  split
  · rename_i hspace
    subst hspace
    have hblank : spaced ['+'] = [' '] := rfl
    rw [hblank, List.singleton_append, unquoteToBytes_of_ne (by decide)]
    rfl
  · split
    · rename_i hsafe
      obtain ⟨hascii, -, hpercent, hplus, -⟩ := facts_of_isSafe hsafe
      rw [spaced_of_not_mem fun h => hplus (List.mem_singleton.mp h).symm, List.singleton_append, unquoteToBytes_of_ne hpercent,
        utf8EncodeChar_of_ascii hascii, List.singleton_append]
    · rw [spaced_of_not_mem (plus_not_mem_quoteBytes _), unquoteToBytes_quoteBytes]

theorem unquoteToBytes_quotePlus (s : List Char) : unquoteToBytes (spaced (quotePlus s)) = s.flatMap String.utf8EncodeChar := by
  induction s with
  | nil => rfl
  | cons c s ih =>
    have happend : spaced (quotePlus (c :: s)) = spaced (quoteChar c) ++ spaced (quotePlus s) := by
      rw [spaced, quotePlus, List.flatMap_cons, List.map_append]
      rfl
    rw [happend, unquoteToBytes_quoteChar, ih, List.flatMap_cons]

/-- The bytes of a text are the characters of the text. -/
theorem decodeFrom_utf8 (s : List Char) : ∀ n, s.length ≤ n → decodeFrom n (s.flatMap String.utf8EncodeChar) = s := by
  induction s with
  | nil =>
    intro n _
    cases n <;> rfl
  | cons c s ih =>
    intro n hn
    obtain ⟨n, rfl⟩ : ∃ m, n = m + 1 := ⟨n - 1, by simp only [List.length_cons] at hn; omega⟩
    have hdecode : ByteArray.utf8DecodeChar? (String.utf8EncodeChar c ++ s.flatMap String.utf8EncodeChar).toByteArray 0 = some c := by
      rw [List.toByteArray_append]
      exact ByteArray.utf8DecodeChar?_utf8EncodeChar_append
    have hdrop : (String.utf8EncodeChar c ++ s.flatMap String.utf8EncodeChar).drop c.utf8Size = s.flatMap String.utf8EncodeChar := by
      rw [← String.length_utf8EncodeChar, List.drop_left]
    rw [List.flatMap_cons]
    have hpos : 0 < (String.utf8EncodeChar c).length := by
      rw [String.length_utf8EncodeChar]
      exact c.utf8Size_pos
    cases hbytes : String.utf8EncodeChar c ++ s.flatMap String.utf8EncodeChar with
    | nil => rw [(List.append_eq_nil_iff.mp hbytes).1] at hpos; exact absurd hpos (by decide)
    | cons b bytes =>
      rw [hbytes] at hdecode hdrop
      rw [decodeFrom, hdecode]
      dsimp only
      rw [hdrop, ih n (by simp only [List.length_cons] at hn; omega)]

theorem decodeReplace_utf8 (s : List Char) : decodeReplace (s.flatMap String.utf8EncodeChar) = s := by
  refine decodeFrom_utf8 s _ ?_
  induction s with
  | nil => exact Nat.zero_le _
  | cons c s ih =>
    have hpos := c.utf8Size_pos
    rw [List.flatMap_cons, List.length_append, String.length_utf8EncodeChar, List.length_cons]
    omega

/-- Without an escape the text of ASCII characters is its own bytes. -/
theorem unquoteToBytes_plain {s : List Char} (hascii : ∀ c ∈ s, c.toNat < 128) (hpercent : '%' ∉ s) :
    unquoteToBytes s = s.flatMap String.utf8EncodeChar := by
  induction s with
  | nil => rfl
  | cons c s ih =>
    have hne : c ≠ '%' := by
      rintro rfl
      exact hpercent List.mem_cons_self
    rw [unquoteToBytes_of_ne hne, List.flatMap_cons, utf8EncodeChar_of_ascii (hascii c List.mem_cons_self), List.singleton_append,
      ih (fun d hd => hascii d (List.mem_cons_of_mem _ hd)) fun h => hpercent (List.mem_cons_of_mem _ h)]

/-- A text of ASCII characters is one run. -/
theorem unquote_ascii {s : List Char} (hascii : ∀ c ∈ s, c.toNat < 128) : unquote s = decodeReplace (unquoteToBytes s) := by
  unfold unquote
  split
  · rename_i hpercent
    rw [unquoteToBytes_plain hascii hpercent, decodeReplace_utf8]
  · rename_i hpercent
    have hne : s ≠ [] := by
      rintro rfl
      exact hpercent List.not_mem_nil
    have hchain : s.IsChain fun a b => (decide (a.toNat < 128) == decide (b.toNat < 128)) = true := by
      refine List.Pairwise.isChain (List.pairwise_of_forall_mem_list fun a ha b hb => ?_)
      rw [decide_eq_true (hascii a ha), decide_eq_true (hascii b hb)]
      rfl
    have hall : isAscii s = true := List.all_eq_true.mpr fun c hc => decide_eq_true (hascii c hc)
    rw [List.splitBy_of_isChain hne hchain, List.flatMap_cons, List.flatMap_nil, List.append_nil, if_pos hall]

theorem unquotePlus_quotePlus (s : List Char) : unquotePlus (quotePlus s) = s := by
  have hascii : ∀ c ∈ spaced (quotePlus s), c.toNat < 128 := by
    intro c hc
    obtain ⟨d, hd, rfl⟩ := List.mem_map.mp hc
    split
    · decide
    · exact (facts_of_isQueryChar (isQueryChar_quotePlus s d hd)).1
  have hspaced : unquotePlus (quotePlus s) = unquote (spaced (quotePlus s)) := rfl
  rw [hspaced, unquote_ascii hascii, unquoteToBytes_quotePlus, decodeReplace_utf8]

theorem before_quotePair (pair : List Char × List Char) : before '=' (quotePair pair) = quotePlus pair.1 ∧
    after '=' (quotePair pair) = quotePlus pair.2 := by
  have hall : ∀ c ∈ quotePlus pair.1, decide (c ≠ '=') = true :=
    fun c hc => decide_eq_true (facts_of_isQueryChar (isQueryChar_quotePlus _ c hc)).2.2.1
  unfold before after quotePair
  constructor
  · rw [List.takeWhile_append_of_pos hall, List.takeWhile_cons_of_neg (by decide), List.append_nil]
  · rw [List.dropWhile_append_of_pos hall, List.dropWhile_cons_of_neg (by decide), List.tail_cons]

theorem amp_not_mem_quotePair (pair : List Char × List Char) : '&' ∉ quotePair pair := by
  intro hmem
  rcases List.mem_append.mp hmem with hmem | hmem
  · exact (facts_of_isQueryChar (isQueryChar_quotePlus _ _ hmem)).2.2.2.1 rfl
  · rcases List.mem_cons.mp hmem with hmem | hmem
    · exact absurd hmem (by decide)
    · exact (facts_of_isQueryChar (isQueryChar_quotePlus _ _ hmem)).2.2.2.1 rfl

/-- The pairs of a query that was written. -/
theorem parseQsl_urlencode (pairs : List (List Char × List Char)) : parseQsl (urlencode pairs) = pairs := by
  cases hpairs : pairs with
  | nil => rfl
  | cons pair rest =>
    rw [← hpairs]
    have hne : pairs.map quotePair ≠ [] := by
      rw [hpairs]
      exact List.cons_ne_nil _ _
    unfold parseQsl urlencode
    rw [List.splitOn_intercalate '&' (by
      intro piece hpiece
      obtain ⟨p, -, rfl⟩ := List.mem_map.mp hpiece
      exact amp_not_mem_quotePair p) hne]
    have hkept : (pairs.map quotePair).filter (fun piece => decide (piece ≠ [])) = pairs.map quotePair := by
      refine List.filter_eq_self.mpr fun piece hpiece => ?_
      obtain ⟨p, -, rfl⟩ := List.mem_map.mp hpiece
      exact decide_eq_true fun hnil => List.cons_ne_nil _ _ (List.append_eq_nil_iff.mp hnil).2
    rw [hkept, List.map_map]
    refine (List.map_congr_left fun p _ => ?_).trans (List.map_id pairs)
    have hbefore := before_quotePair p
    rw [Function.comp_apply, hbefore.1, hbefore.2, unquotePlus_quotePlus, unquotePlus_quotePlus, id]

/-- The characters of a query that was written are none that end a query. -/
theorem facts_urlencode (pairs : List (List Char × List Char)) : ∀ c ∈ urlencode pairs, 32 < c.toNat ∧ c ≠ '#' := by
  have hpair : ∀ pair, ∀ c ∈ quotePair pair, 32 < c.toNat ∧ c ≠ '#' := by
    intro pair c hc
    rcases List.mem_append.mp hc with hc | hc
    · obtain ⟨-, hspace, -, -, hhash⟩ := facts_of_isQueryChar (isQueryChar_quotePlus _ c hc)
      exact ⟨hspace, hhash⟩
    · rcases List.mem_cons.mp hc with rfl | hc
      · decide
      · obtain ⟨-, hspace, -, -, hhash⟩ := facts_of_isQueryChar (isQueryChar_quotePlus _ c hc)
        exact ⟨hspace, hhash⟩
  intro c hc
  unfold urlencode at hc
  induction pairs with
  | nil => exact absurd hc List.not_mem_nil
  | cons pair rest ih =>
    cases hrest : rest with
    | nil =>
      rw [hrest] at hc
      exact hpair pair c (by simpa [List.intercalate] using hc)
    | cons next tail =>
      have hsplit : ['&'].intercalate ((pair :: rest).map quotePair) =
          quotePair pair ++ '&' :: ['&'].intercalate (rest.map quotePair) := by
        rw [hrest]
        simp [List.intercalate]
      rw [hsplit] at hc
      rcases List.mem_append.mp hc with hc | hc
      · exact hpair pair c hc
      · rcases List.mem_cons.mp hc with rfl | hc
        · decide
        · exact ih hc

end PyQuery
