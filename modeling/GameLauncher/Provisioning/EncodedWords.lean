import GameLauncher.Foundation.Occurrences
import GameLauncher.Foundation.Utf8
import GameLauncher.Provisioning.EmailIngest

/-!
# Encoded words in mail headers

A header value holds text outside ASCII in encoded words, in base64 or in a quoted form that
writes a byte as an escape. `decodeHeaderValue` looks for the markers of a word by plain search
and replaces the word by its text. It ends on every value and cuts none inside a character
(`exists_decodeHeaderValue`).

A quoted word that begins with an escape is not found: its first byte and the separator before it
read as the closing marker. `decodeHeaderValue_eq_iff` says that these words are the only ones
that are not decoded.
-/

set_option autoImplicit false

namespace GameLauncher.Provisioning

open Foundation Fallible List Base64

/-! ### The quoted form -/

def hexValue (value : UInt8) : Except ProvisioningError UInt8 :=
  if 48 ≤ value ∧ value ≤ 57 then .ok (value - 48)
  else if 97 ≤ value ∧ value ≤ 102 then .ok (value - 97 + 10)
  else if 65 ≤ value ∧ value ≤ 70 then .ok (value - 65 + 10)
  else .error (.mail "invalid quoted-printable escape")

/-- `decode_quoted_printable`: an escape is a byte in hexadecimal or a line end that is not
there. -/
def decodeQuotedPrintable : Bytes → Except ProvisioningError Bytes
  | [] => .ok []
  | [byte] =>
    if byte = 61 then .error (.mail "truncated quoted-printable body") else .ok [byte]
  | [byte, next] =>
    if byte = 61 then
      if next = 10 then .ok [] else .error (.mail "truncated quoted-printable body")
    else do
      let others ← decodeQuotedPrintable [next]
      return byte :: others
  | byte :: next :: third :: rest =>
    if byte = 61 then
      if next = 13 ∧ third = 10 then decodeQuotedPrintable rest
      else if next = 10 then decodeQuotedPrintable (third :: rest)
      else do
        let high ← hexValue next
        let low ← hexValue third
        let others ← decodeQuotedPrintable rest
        return (high <<< 4 ||| low) :: others
    else do
      let others ← decodeQuotedPrintable (next :: third :: rest)
      return byte :: others

/-- `decode_header_base64`, which adds the padding that is missing. -/
def decodeHeaderBase64 (value : Text) : Option Bytes :=
  let padding := (4 - (utf8 value).length % 4) % 4
  Base64.decode (value ++ List.replicate padding '=')

/-! ### Words -/

/-- Rust's `eq_ignore_ascii_case`. -/
def eqIgnoreAsciiCase (left right : Text) : Bool := toAsciiLowercase left == toAsciiLowercase right

/-- The text of what stands between the markers of a word, if it is one. -/
def decodeWord (encoded : Text) : Option Text :=
  let pieces := splitn 3 '?' encoded
  match pieces[1]?, pieces[2]? with
  | some encoding, some data =>
    if eqIgnoreAsciiCase encoding "b" then (decodeHeaderBase64 data).map fromUtf8Lossy
    else if eqIgnoreAsciiCase encoding "q" then
      let spaced := data.map fun c ↦ if c = '_' then ' ' else c
      (decodeQuotedPrintable (utf8 spaced)).toOption.map fromUtf8Lossy
    else none
  | _, _ => none

/-- The ways in which a scan of a text would end without a result. -/
inductive ScanFault
  | cutInsideCharacter
  | unfinished
  deriving DecidableEq, Repr

/-- `str::find`: the byte offset of the first occurrence. -/
def find (pattern text : Text) : Option ℕ :=
  (text.dropInfix? pattern).map fun parts ↦ (utf8 parts.1).length

/-- `&text[..stop]`. -/
def sliceTo (text : Text) (stop : ℕ) : Except ScanFault Text :=
  orThrow ((splitAtByte text stop).map Prod.fst) .cutInsideCharacter

/-- `&text[start..]`. -/
def sliceFrom (text : Text) (start : ℕ) : Except ScanFault Text :=
  orThrow ((splitAtByte text start).map Prod.snd) .cutInsideCharacter

/-- `&text[start..stop]`. -/
def sliceBetween (text : Text) (start stop : ℕ) : Except ScanFault Text := do
  throwIf (stop < start) .cutInsideCharacter
  let rest ← sliceFrom text start
  sliceTo rest (stop - start)

/-- The loop of `decode_header_value` with a bound on its rounds. -/
def decodeWords : ℕ → Text → Text → Except ScanFault Text
  | 0, _, _ => .error .unfinished
  | fuel + 1, output, remaining =>
    match find "=?" remaining with
    | none => .ok (trim (output ++ remaining))
    | some start => do
      let before ← sliceTo remaining start
      let after ← sliceFrom remaining (start + 2)
      match find "?=" after with
      | none => do
        let unclosed ← sliceFrom remaining start
        return output ++ before ++ unclosed
      | some stop => do
        let encoded ← sliceTo after stop
        let text ← match decodeWord encoded with
          | some decoded => pure decoded
          | none => sliceBetween remaining start (start + 2 + stop + 2)
        let rest ← sliceFrom after (stop + 2)
        decodeWords fuel (output ++ before ++ text) rest

/-- `decode_header_value`: a round takes at least a marker off the value. -/
def decodeHeaderValue (value : Text) : Except ScanFault Text :=
  decodeWords (value.length + 1) [] value

/-! ### Rounds of the loop -/

variable {after before text remaining : Text}

theorem find_of_dropInfix? {pattern : Text} (h : text.dropInfix? pattern = some (before, after)) :
    find pattern text = some (utf8 before).length := by
  rw [find, h]
  rfl

theorem find_of_none {pattern : Text} (h : text.dropInfix? pattern = none) :
    find pattern text = none := by
  rw [find, h]
  rfl

theorem sliceTo_append (first second : Text) :
    sliceTo (first ++ second) (utf8 first).length = .ok first := by
  rw [sliceTo, splitAtByte_append]
  rfl

theorem sliceFrom_append (first second : Text) :
    sliceFrom (first ++ second) (utf8 first).length = .ok second := by
  rw [sliceFrom, splitAtByte_append]
  rfl

/-- A value without an opening marker is what it is. -/
theorem decodeWords_of_none (fuel : ℕ) (output : Text) (h : remaining.dropInfix? "=?" = none)
    :
    decodeWords (fuel + 1) output remaining = .ok (trim (output ++ remaining)) := by
  rw [decodeWords, find_of_none h]

/-- A marker that is not closed leaves the rest as it is. -/
theorem decodeWords_of_unclosed (fuel : ℕ) (output : Text)
    (hopen : remaining.dropInfix? "=?" = some (before, after))
    (hclose : after.dropInfix? "?=" = none) :
    decodeWords (fuel + 1) output remaining = .ok (output ++ remaining) := by
  have hsplit := eq_append_of_dropInfix? hopen
  have hbefore : sliceTo remaining (utf8 before).length = .ok before := by
    rw [hsplit, append_assoc]
    exact sliceTo_append _ _
  have hafter : sliceFrom remaining ((utf8 before).length + 2) = .ok after := by
    have hlength : (utf8 before).length + 2 = (utf8 (before ++ "=?")).length := by
      rw [utf8_append, length_append]
      rfl
    rw [hsplit, hlength]
    exact sliceFrom_append _ _
  have hunclosed : sliceFrom remaining (utf8 before).length = .ok ("=?" ++ after) := by
    rw [hsplit, append_assoc]
    exact sliceFrom_append _ _
  rw [decodeWords, find_of_dropInfix? hopen]
  simp only [hbefore, hafter, hunclosed, find_of_none hclose, bind_eq_ok, pure_eq_ok,
    Except.ok.injEq, exists_eq_left']
  rw [hsplit, append_assoc, append_assoc]

theorem decodeWords_of_closed (fuel : ℕ) (output : Text) {encoded rest : Text}
    (hopen : remaining.dropInfix? "=?" = some (before, after))
    (hclose : after.dropInfix? "?=" = some (encoded, rest)) :
    decodeWords (fuel + 1) output remaining = decodeWords fuel (output ++ before ++
        (decodeWord encoded).getD ("=?" ++ encoded ++ "?=")) rest := by
  have hmarker (text : Text) : (utf8 text).length + 2 = (utf8 (text ++ "=?")).length ∧
      (utf8 text).length + 2 = (utf8 (text ++ "?=")).length := by
    rw [utf8_append, utf8_append, length_append, length_append]
    exact ⟨rfl, rfl⟩
  have hsplit := eq_append_of_dropInfix? hopen
  have hsplitAfter := eq_append_of_dropInfix? hclose
  have hbefore : sliceTo remaining (utf8 before).length = .ok before := by
    rw [hsplit, append_assoc]
    exact sliceTo_append _ _
  have hafter : sliceFrom remaining ((utf8 before).length + 2) = .ok after := by
    rw [hsplit, (hmarker before).1]
    exact sliceFrom_append _ _
  have hencoded : sliceTo after (utf8 encoded).length = .ok encoded := by
    rw [hsplitAfter, append_assoc]
    exact sliceTo_append _ _
  have hrest : sliceFrom after ((utf8 encoded).length + 2) = .ok rest := by
    rw [hsplitAfter, (hmarker encoded).2]
    exact sliceFrom_append _ _
  have hkept : sliceBetween remaining (utf8 before).length
      ((utf8 before).length + 2 + (utf8 encoded).length + 2) = .ok ("=?" ++ encoded ++ "?=") := by
    have hlength : (utf8 before).length + 2 + (utf8 encoded).length + 2 - (utf8 before).length =
        (utf8 ("=?" ++ encoded ++ "?=")).length := by
      rw [utf8_append, utf8_append, length_append, length_append]
      change _ = 2 + (utf8 encoded).length + 2
      omega
    have hword : sliceFrom remaining (utf8 before).length =
        .ok ("=?" ++ encoded ++ "?=" ++ rest) := by
      rw [hsplit, hsplitAfter, append_assoc]
      simpa only [append_assoc] using
        sliceFrom_append before ("=?" ++ (encoded ++ "?=" ++ rest))
    rw [sliceBetween, throwIf, if_neg (by omega), hlength]
    change (sliceFrom remaining (utf8 before).length >>= fun rest ↦ _) = _
    rw [hword]
    exact sliceTo_append _ _
  rw [decodeWords, find_of_dropInfix? hopen]
  simp only [hbefore, hafter, ok_bind, find_of_dropInfix? hclose, hencoded, hrest]
  cases decodeWord encoded with
  | some decoded => rfl
  | none =>
    simp only [hkept, ok_bind]
    rfl

/-- The loop ends on every text and cuts none inside a character. -/
theorem exists_decodeWords {fuel : ℕ} (hfuel : remaining.length < fuel) (output : Text) :
    ∃ text, decodeWords fuel output remaining = .ok text := by
  induction fuel generalizing output remaining with
  | zero => exact absurd hfuel (Nat.not_lt_zero _)
  | succ fuel ih =>
    cases hopen : remaining.dropInfix? "=?" with
    | none => exact ⟨_, decodeWords_of_none fuel output hopen⟩
    | some opened =>
      obtain ⟨before, after⟩ := opened
      cases hclose : after.dropInfix? "?=" with
      | none => exact ⟨_, decodeWords_of_unclosed fuel output hopen hclose⟩
      | some closed =>
        obtain ⟨encoded, rest⟩ := closed
        have hlength := congrArg List.length (eq_append_of_dropInfix? hopen)
        have hlengthAfter := congrArg List.length (eq_append_of_dropInfix? hclose)
        rw [length_append, length_append] at hlength hlengthAfter
        have hmarker : "=?".toList.length = 2 := rfl
        rw [decodeWords_of_closed fuel output hopen hclose]
        exact ih (by omega) _

theorem exists_decodeHeaderValue (value : Text) : ∃ text, decodeHeaderValue value = .ok text :=
  exists_decodeWords (Nat.lt_succ_self _) []

/-! ### Renderings of a text -/

variable {bytes : Bytes} {payload : Text}

/-- A hexadecimal digit of a value, in either case. -/
def IsDigitOf (value : ℕ) (c : Char) : Prop := c = hexDigit value ∨ c = (hexDigit value).toUpper

/-- A byte that a quoted word may hold as it is: a visible character that is no sign of the
encoding. -/
def IsLiteral (byte : UInt8) : Prop :=
  33 ≤ byte.toNat ∧ byte.toNat ≤ 126 ∧ byte.toNat ≠ 61 ∧ byte.toNat ≠ 63 ∧ byte.toNat ≠ 95

/-- The quoted form of bytes: each as it is where it may be, or as an escape, and a space as an
underscore. -/
inductive QuotedForm : Bytes → Text → Prop
  | nil : QuotedForm [] []
  | literal {byte : UInt8} {rest : Bytes} {text : Text} (hbyte : IsLiteral byte)
      (hrest : QuotedForm rest text) : QuotedForm (byte :: rest) (Char.ofNat byte.toNat :: text)
  | escaped {byte : UInt8} {high low : Char} {rest : Bytes} {text : Text}
      (hhigh : IsDigitOf (byte.toNat / 16) high) (hlow : IsDigitOf (byte.toNat % 16) low)
      (hrest : QuotedForm rest text) : QuotedForm (byte :: rest) ('=' :: high :: low :: text)
  | space {rest : Bytes} {text : Text} (hrest : QuotedForm rest text) :
      QuotedForm (32 :: rest) ('_' :: text)

inductive EncodedWord (text : Text) : Text → Prop
  | padded : EncodedWord text
      ("=?" ++ ("UTF-8?B?" ++ Base64.encode (utf8 text)) ++ "?=")
  | unpadded : EncodedWord text
      ("=?" ++ ("UTF-8?B?" ++ (Base64.encode (utf8 text)).filter (· ≠ '=')) ++ "?=")
  | quoted {payload : Text} (hpayload : QuotedForm (utf8 text) payload) : EncodedWord text
      ("=?" ++ ("UTF-8?Q?" ++ payload) ++ "?=")

/-- A quoted word whose first byte is an escape. -/
def StartsEscaped (word : Text) : Prop := "=?UTF-8?Q?=" <+: word

/-- A text without the markers of encoded words. -/
def IsMarkerFree (text : Text) : Prop :=
  ¬ "=?" <:+: text ∧ ¬ "?=" <:+: text

theorem hexValue_of_isDigitOf {value : ℕ} (hvalue : value < 16) {c : Char} (h : IsDigitOf value c) :
    hexValue (UInt8.ofNat c.toNat) = .ok (UInt8.ofNat value) ∧ IsAscii c ∧ c ≠ '?' ∧ c ≠ '=' ∧
      c ≠ '_' ∧ UInt8.ofNat c.toNat ≠ 13 ∧ UInt8.ofNat c.toNat ≠ 10 := by
  have hall : (List.range 16).all (fun value ↦ [hexDigit value, (hexDigit value).toUpper].all fun c ↦
      decide (hexValue (UInt8.ofNat c.toNat) = .ok (UInt8.ofNat value) ∧ IsAscii c ∧ c ≠ '?' ∧
        c ≠ '=' ∧ c ≠ '_' ∧ UInt8.ofNat c.toNat ≠ 13 ∧ UInt8.ofNat c.toNat ≠ 10)) = true := by
    decide
  have hmem : c ∈ [hexDigit value, (hexDigit value).toUpper] := by
    rcases h with rfl | rfl
    · exact mem_cons_self
    · exact mem_cons_of_mem _ mem_cons_self
  have hdigit := all_eq_true.mp hall value (mem_range.mpr hvalue)
  exact of_decide_eq_true (all_eq_true.mp hdigit c hmem)

theorem byte_of_digits (byte : UInt8) :
    UInt8.ofNat (byte.toNat / 16) <<< 4 ||| UInt8.ofNat (byte.toNat % 16) = byte := by
  have hall : ∀ value : Fin 256,
      UInt8.ofNat (value.val / 16) <<< 4 ||| UInt8.ofNat (value.val % 16) =
        UInt8.ofNat value.val := by
    decide +kernel
  have h := hall ⟨byte.toNat, byte.toNat_lt⟩
  rwa [UInt8.ofNat_toNat] at h

theorem decodeQuotedPrintable_cons {byte : UInt8} (hbyte : byte ≠ 61) (rest : Bytes) :
    decodeQuotedPrintable (byte :: rest) =
      (decodeQuotedPrintable rest >>= fun others ↦ pure (byte :: others)) := by
  match rest with
  | [] => exact if_neg hbyte
  | [_] => exact if_neg hbyte
  | _ :: _ :: _ => exact if_neg hbyte

theorem decodeQuotedPrintable_escape {byte : UInt8} {high low : Char}
    (hhigh : IsDigitOf (byte.toNat / 16) high) (hlow : IsDigitOf (byte.toNat % 16) low)
    (rest : Bytes) :
    decodeQuotedPrintable (61 :: UInt8.ofNat high.toNat :: UInt8.ofNat low.toNat :: rest) =
      (decodeQuotedPrintable rest >>= fun others ↦ pure (byte :: others)) := by
  have hbyte := byte.toNat_lt
  obtain ⟨hhighValue, -, -, -, -, hreturn, hnewline⟩ := hexValue_of_isDigitOf (by omega) hhigh
  obtain ⟨hlowValue, -⟩ := hexValue_of_isDigitOf (by omega) hlow
  rw [decodeQuotedPrintable, if_pos rfl, if_neg (fun h ↦ hreturn h.1), if_neg hnewline, hhighValue,
    hlowValue, ok_bind, ok_bind, byte_of_digits]

theorem toNat_charOfNat {value : ℕ} (h : value < 128) : (Char.ofNat value).toNat = value := by
  rw [Char.ofNat, dif_pos (Or.inl (by omega))]
  rfl

theorem QuotedForm.decodes (h : QuotedForm bytes payload) :
    decodeQuotedPrintable (utf8 (payload.map fun c ↦ if c = '_' then ' ' else c)) = .ok bytes := by
  induction h with
  | nil => rfl
  | @literal byte rest text hbyte _ ih =>
    unfold IsLiteral at hbyte
    have hvalue : (Char.ofNat byte.toNat).toNat = byte.toNat := toNat_charOfNat (by omega)
    have hne {c : Char} (hc : c.toNat ≠ byte.toNat) : Char.ofNat byte.toNat ≠ c := fun h ↦ by
      rw [← h, hvalue] at hc
      exact hc rfl
    have hunderscore : Char.ofNat byte.toNat ≠ '_' := hne fun h ↦ hbyte.2.2.2.2 h.symm
    have hequals : byte ≠ 61 := fun h ↦ hbyte.2.2.1 (by rw [h]; rfl)
    have hascii : IsAscii (Char.ofNat byte.toNat) := by
      unfold IsAscii
      omega
    rw [map_cons, if_neg hunderscore, utf8_cons, utf8Char_of_ascii hascii,
      hvalue, UInt8.ofNat_toNat, singleton_append, decodeQuotedPrintable_cons hequals, ih]
    rfl
  | @escaped byte high low rest text hhigh hlow _ ih =>
    have hbyte := byte.toNat_lt
    obtain ⟨-, hhighAscii, -, -, hhighUnderscore, -⟩ := hexValue_of_isDigitOf (by omega) hhigh
    obtain ⟨-, hlowAscii, -, -, hlowUnderscore, -⟩ := hexValue_of_isDigitOf (by omega) hlow
    rw [map_cons, map_cons, map_cons, if_neg (by decide), if_neg hhighUnderscore,
      if_neg hlowUnderscore, utf8_cons, utf8_cons, utf8_cons, utf8Char_of_ascii hhighAscii,
      utf8Char_of_ascii hlowAscii]
    change decodeQuotedPrintable (61 :: UInt8.ofNat high.toNat :: UInt8.ofNat low.toNat :: _) = _
    rw [decodeQuotedPrintable_escape hhigh hlow]
    change (decodeQuotedPrintable (utf8 _) >>= _) = _
    rw [ih]
    rfl
  | @space rest text _ ih =>
    rw [map_cons, if_pos rfl, utf8_cons]
    change decodeQuotedPrintable (32 :: _) = _
    rw [decodeQuotedPrintable_cons (by decide)]
    change (decodeQuotedPrintable (utf8 _) >>= _) = _
    rw [ih]
    rfl

theorem QuotedForm.question_notMem (h : QuotedForm bytes payload) : '?' ∉ payload := by
  induction h with
  | nil => exact not_mem_nil
  | @literal byte rest text hbyte _ ih =>
    unfold IsLiteral at hbyte
    have hvalue : (Char.ofNat byte.toNat).toNat = byte.toNat := toNat_charOfNat (by omega)
    have hne : '?' ≠ Char.ofNat byte.toNat := fun h ↦ by
      rw [← h] at hvalue
      exact hbyte.2.2.2.1 hvalue.symm
    exact not_mem_cons_of_ne_of_not_mem hne ih
  | @escaped byte high low rest text hhigh hlow _ ih =>
    have hbyte := byte.toNat_lt
    obtain ⟨-, -, hhighQuestion, -⟩ := hexValue_of_isDigitOf (by omega) hhigh
    obtain ⟨-, -, hlowQuestion, -⟩ := hexValue_of_isDigitOf (by omega) hlow
    exact not_mem_cons_of_ne_of_not_mem (by decide)
      (not_mem_cons_of_ne_of_not_mem hhighQuestion.symm
        (not_mem_cons_of_ne_of_not_mem hlowQuestion.symm ih))
  | space _ ih => exact not_mem_cons_of_ne_of_not_mem (by decide) ih

theorem QuotedForm.length_le (h : QuotedForm bytes payload) : bytes.length ≤ payload.length := by
  induction h with
  | nil => exact le_rfl
  | literal _ _ ih => exact Nat.succ_le_succ ih
  | escaped _ _ _ ih =>
    simp only [length_cons]
    omega
  | space _ ih => exact Nat.succ_le_succ ih

/-! ### The base64 form -/

theorem symbol_notMem {symbols : Text} (h : ∀ c ∈ symbols, ∃ value < 64, c = Base64.symbol value) :
    '?' ∉ symbols ∧ '=' ∉ symbols ∧ ∀ c ∈ symbols, IsAscii c := by
  have hvalue {value : ℕ} (hvalue : value < 64) := symbol_facts hvalue
  refine ⟨fun hmem ↦ ?_, fun hmem ↦ ?_, fun c hmem ↦ ?_⟩
  · obtain ⟨value, hlt, hsymbol⟩ := h _ hmem
    have hsome := (hvalue hlt).1
    have hnone : Base64.symbolValue '?' = none := by decide
    rw [← hsymbol, hnone] at hsome
    cases hsome
  · obtain ⟨value, hlt, hsymbol⟩ := h _ hmem
    exact (hvalue hlt).2.1 hsymbol.symm
  · obtain ⟨value, hlt, rfl⟩ := h _ hmem
    exact lt_of_le_of_lt (hvalue hlt).2.2.2 (by decide)

theorem decodeHeaderBase64_symbols {symbols : Text} (hascii : ∀ c ∈ symbols, IsAscii c)
    {padding : ℕ} (hpadding : padding ≤ 2) (hlength : (symbols.length + padding) % 4 = 0) :
    decodeHeaderBase64 symbols = Base64.decode (symbols ++ List.replicate padding '=') := by
  have hbytes : (utf8 symbols).length = symbols.length := by
    rw [utf8_of_ascii hascii, length_map]
  have hcount : (4 - (utf8 symbols).length % 4) % 4 = padding := by
    rw [hbytes]
    omega
  unfold decodeHeaderBase64
  rw [hcount]

theorem decodeHeaderBase64_encode (bytes : Bytes) :
    decodeHeaderBase64 (Base64.encode bytes) = some bytes ∧
      decodeHeaderBase64 ((Base64.encode bytes).filter (· ≠ '=')) = some bytes := by
  obtain ⟨symbols, padding, hencode, hsymbols, hpadding, hlength⟩ := exists_encode_eq bytes
  obtain ⟨-, hequals, hascii⟩ := symbol_notMem hsymbols
  have hdecode := decode_encode bytes
  constructor
  · have hall : ∀ c ∈ Base64.encode bytes, IsAscii c := fun c hc ↦
      lt_of_le_of_lt (visible_of_mem_encode hc).2 (by decide)
    have hwhole : (Base64.encode bytes).length + 0 = symbols.length + padding := by
      rw [hencode, length_append, length_replicate, Nat.add_zero]
    rw [decodeHeaderBase64_symbols hall (Nat.zero_le 2) (by rw [hwhole, hlength]),
      replicate_zero, append_nil, hdecode]
  · have hfilter : (Base64.encode bytes).filter (· ≠ '=') = symbols := by
      rw [hencode, filter_append, filter_eq_self.mpr fun c hc ↦ ?_,
        filter_eq_nil_iff.mpr fun c hc ↦ ?_, append_nil]
      · simp [eq_of_mem_replicate hc]
      · exact decide_eq_true fun h ↦ hequals (h ▸ hc)
    rw [hfilter, decodeHeaderBase64_symbols hascii hpadding hlength, ← hencode, hdecode]

theorem base64_payload (bytes : Bytes) :
    '?' ∉ Base64.encode bytes ∧ (Base64.encode bytes).head? ≠ some '=' := by
  obtain ⟨symbols, padding, hencode, hsymbols, hpadding, hlength⟩ := exists_encode_eq bytes
  obtain ⟨hquestion, hequals, -⟩ := symbol_notMem hsymbols
  rw [hencode]
  constructor
  · intro hmem
    rcases mem_append.mp hmem with hmem | hmem
    · exact hquestion hmem
    · exact absurd (eq_of_mem_replicate hmem) (by decide)
  · cases symbols with
    | nil =>
      have hnone : padding = 0 := by
        rw [length_nil] at hlength
        omega
      rw [hnone]
      rintro ⟨⟩
    | cons first rest =>
      intro hhead
      exact hequals (Option.some.inj hhead ▸ mem_cons_self)

/-! ### One word in a value -/

theorem decodeWord_base64 (data : Text) :
    decodeWord ("UTF-8?B?" ++ data) = (decodeHeaderBase64 data).map fromUtf8Lossy := by
  have hpieces : splitn 3 '?' ("UTF-8?B?".toList ++ data) = ["UTF-8".toList, "B".toList, data] := by
    change splitn 3 '?' ("UTF-8".toList ++ '?' :: ("B".toList ++ '?' :: data)) = _
    rw [splitn_append _ 1 (by decide), splitn_append _ 0 (by decide)]
    rfl
  rw [decodeWord, hpieces]
  exact if_pos (by decide)

theorem decodeWord_quoted (data : Text) :
    decodeWord ("UTF-8?Q?" ++ data) = (decodeQuotedPrintable
        (utf8 (data.map fun c ↦ if c = '_' then ' ' else c))).toOption.map fromUtf8Lossy := by
  have hpieces : splitn 3 '?' ("UTF-8?Q?".toList ++ data) = ["UTF-8".toList, "Q".toList, data] := by
    change splitn 3 '?' ("UTF-8".toList ++ '?' :: ("Q".toList ++ '?' :: data)) = _
    rw [splitn_append _ 1 (by decide), splitn_append _ 0 (by decide)]
    rfl
  rw [decodeWord, hpieces]
  exact (if_neg (by decide)).trans (if_pos (by decide))

/-- The closing marker is found behind a payload that neither holds a question mark nor begins
with an equals sign. -/
theorem closing_dropInfix? {label data : Text} (after : Text) (hlabel : '=' ∉ label)
    (hquestion : '?' ∉ data) (hhead : data.head? ≠ some '=') :
    (label ++ data ++ "?=" ++ after).dropInfix? "?=" = some (label ++ data, after) := by
  refine dropInfix?_append after (cons_ne_nil _ _) ?_
  change ¬ ['?', '='] <:+: label ++ data ++ ['?']
  rw [pair_infix_append, pair_infix_append]
  rintro ((hpart | hpart | hjoint) | hpart | hjoint)
  · exact not_pair_infix_of_second_notMem hlabel hpart
  · exact not_pair_infix_of_notMem hquestion hpart
  · exact hhead hjoint.2
  · exact not_pair_infix_of_second_notMem (by decide) hpart
  · exact absurd hjoint.2 (by decide)

theorem opening_dropInfix? (after : Text) (hbefore : ¬ "=?" <:+: before) :
    (before ++ "=?" ++ after).dropInfix? "=?" = some (before, after) := by
  refine dropInfix?_append after (cons_ne_nil _ _) ?_
  change ¬ ['=', '?'] <:+: before ++ ['=']
  rw [pair_infix_append]
  rintro (hpart | hpart | hjoint)
  · exact hbefore hpart
  · exact not_pair_infix_of_second_notMem (by decide) hpart
  · exact absurd hjoint.2 (by decide)

theorem decodeHeaderValue_of_found {encoded : Text} (hbefore : ¬ "=?" <:+: before)
    (hafter : ¬ "=?" <:+: after)
    (hclose : (encoded ++ "?=" ++ after).dropInfix? "?=" = some (encoded, after))
    (hdecode : decodeWord encoded = some text) :
    decodeHeaderValue (before ++ ("=?" ++ encoded ++ "?=") ++ after) =
      .ok (trim (before ++ text ++ after)) := by
  have hvalue : before ++ ("=?" ++ encoded ++ "?=") ++ after =
      before ++ "=?" ++ (encoded ++ "?=" ++ after) := by
    simp only [append_assoc]
  obtain ⟨fuel, hfuel⟩ : ∃ fuel, (before ++ "=?" ++
      (encoded ++ "?=" ++ after)).length = fuel + 1 := by
    refine ⟨before.length + 1 + (encoded ++ "?=" ++ after).length, ?_⟩
    rw [length_append, length_append]
    change before.length + 2 + _ = _
    omega
  rw [hvalue, decodeHeaderValue, hfuel,
    decodeWords_of_closed (fuel + 1) [] (opening_dropInfix? _ hbefore) hclose, hdecode,
    decodeWords_of_none fuel _ (dropInfix?_eq_none_iff.mpr hafter)]
  rfl

theorem QuotedForm.getLast_ne (h : QuotedForm bytes payload) : payload.getLast? ≠ some '=' := by
  have hcons {c : Char} {text : Text} (hc : c ≠ '=') (htext : text.getLast? ≠ some '=') :
      (c :: text).getLast? ≠ some '=' := by
    rw [List.getLast?_cons]
    cases hlast : text.getLast? with
    | none => simpa using hc
    | some last =>
      rw [hlast] at htext
      simpa using htext
  induction h with
  | nil => exact nofun
  | @literal byte rest text hbyte _ ih =>
    unfold IsLiteral at hbyte
    have hvalue : (Char.ofNat byte.toNat).toNat = byte.toNat := toNat_charOfNat (by omega)
    refine hcons (fun h ↦ ?_) ih
    rw [h] at hvalue
    exact hbyte.2.2.1 hvalue.symm
  | @escaped byte high low rest text hhigh hlow _ ih =>
    have hbyte := byte.toNat_lt
    obtain ⟨-, -, -, hequals, -⟩ := hexValue_of_isDigitOf (by omega) hlow
    rw [List.getLast?_cons_cons, List.getLast?_cons_cons]
    exact hcons hequals ih
  | space _ ih => exact hcons (by decide) ih

theorem decodeHeaderValue_of_escaped (hbefore : IsMarkerFree before) (hafter : IsMarkerFree after)
    (hpayload : QuotedForm bytes ('=' :: payload)) :
    let value := before ++ ("=?" ++ ("UTF-8?Q?" ++ '=' :: payload) ++ "?=") ++ after
    decodeHeaderValue value = .ok value ∨ decodeHeaderValue value = .ok (trim value) := by
  intro value
  have hquestion : '?' ∉ payload := fun hmem ↦ hpayload.question_notMem (mem_cons_of_mem _ hmem)
  have hlast : payload.getLast? ≠ some '=' := by
    have hwhole := hpayload.getLast_ne
    rw [List.getLast?_cons] at hwhole
    intro h
    rw [h] at hwhole
    exact hwhole rfl
  have hinner (tail : Text) (htail : ¬ ['=', '?'] <:+: '?' :: tail) :
      ¬ ['=', '?'] <:+: payload ++ '?' :: tail := by
    rw [pair_infix_append]
    rintro (hpart | hpart | hjoint)
    · exact not_pair_infix_of_second_notMem hquestion hpart
    · exact htail hpart
    · exact hlast hjoint.1
  have hvalue : value = before ++ "=?".toList ++
      ("UTF-8?Q".toList ++ [] ++ "?=".toList ++ (payload ++ "?=".toList ++ after)) := by
    simp [value]
  have hclose := closing_dropInfix? (payload ++ "?=".toList ++ after)
    (show '=' ∉ "UTF-8?Q".toList by decide) (show '?' ∉ ([] : Text) by decide) nofun
  obtain ⟨fuel, hfuel⟩ : ∃ fuel, value.length = fuel + 1 :=
    ⟨value.length - 1, by rw [hvalue]; simp; omega⟩
  have hround : decodeHeaderValue value = decodeWords (fuel + 1)
      (before ++ "=?UTF-8?Q?=") (payload ++ "?=" ++ after) := by
    rw [decodeHeaderValue, hfuel, hvalue,
      decodeWords_of_closed (fuel + 1) [] (opening_dropInfix? _ hbefore.1) hclose]
    rfl
  have houtput : before ++ "=?UTF-8?Q?=" ++ (payload ++ "?=" ++ after) = value := by
    simp [value]
  rw [hround]
  by_cases hhead : after.head? = some '?'
  · obtain ⟨rest, rfl⟩ : ∃ rest, after = '?' :: rest := by
      cases after with
      | nil => cases hhead
      | cons c rest => exact ⟨rest, by rw [Option.some.inj hhead]⟩
    have hopen : (payload ++ "?=" ++ '?' :: rest).dropInfix? "=?" =
        some (payload ++ ['?'], rest) := by
      have hfirst : ¬ ['=', '?'] <:+: payload ++ ['?'] ++ ['='] := by
        rw [append_assoc]
        exact hinner ['='] (by decide)
      have hsplit : payload ++ "?=" ++ '?' :: rest = payload ++ ['?'] ++ "=?" ++ rest := by simp
      rw [hsplit]
      exact dropInfix?_append rest (cons_ne_nil _ _) hfirst
    have hclosed : rest.dropInfix? "?=" = none :=
      dropInfix?_eq_none_iff.mpr fun hpart ↦ hafter.2 (hpart.trans (suffix_cons _ _).isInfix)
    refine .inl ?_
    rw [decodeWords_of_unclosed fuel _ hopen hclosed, houtput]
  · have hnone : ¬ ['=', '?'] <:+: payload ++ "?=" ++ after := by
      rw [append_assoc]
      refine hinner ('=' :: after) ?_
      change ¬ ['=', '?'] <:+: ['?', '='] ++ after
      rw [pair_infix_append]
      rintro (hpart | hpart | hjoint)
      · exact absurd hpart (by decide)
      · exact hafter.1 hpart
      · exact hhead hjoint.2
    refine .inr ?_
    rw [decodeWords_of_none fuel _ (dropInfix?_eq_none_iff.mpr hnone), houtput]

theorem length_le_utf8 (text : Text) : text.length ≤ (utf8 text).length := by
  induction text with
  | nil => exact le_rfl
  | cons c rest ih =>
    have hpositive : 0 < (utf8Char c).length := length_pos_iff.mpr (utf8Char_ne_nil c)
    rw [utf8_cons, length_append, length_cons]
    omega

/-- A rendering of a text is found in a value and decodes to the text, or it begins with an
escape. -/
theorem EncodedWord.found_or_escaped {word : Text} (h : EncodedWord text word) (after : Text) :
    (∃ encoded, word = "=?" ++ encoded ++ "?=" ∧
      (encoded ++ "?=" ++ after).dropInfix? "?=" = some (encoded, after) ∧
      decodeWord encoded = some text ∧ ¬ StartsEscaped word) ∨
    ∃ payload, word = "=?" ++ ("UTF-8?Q?" ++ '=' :: payload) ++ "?=" ∧
      QuotedForm (utf8 text) ('=' :: payload) ∧ StartsEscaped word := by
  have hbase (data : Text) :
      ¬ StartsEscaped ("=?" ++ ("UTF-8?B?" ++ data) ++ "?=") := by
    rintro ⟨rest, hrest⟩
    have hletter := congrArg (fun items : Text ↦ items[8]?) hrest
    exact absurd (Option.some.inj hletter) (by decide)
  have hpayload := base64_payload (utf8 text)
  have hdecodes := decodeHeaderBase64_encode (utf8 text)
  cases h with
  | padded =>
    refine .inl ⟨_, rfl, closing_dropInfix? after (by decide) hpayload.1 hpayload.2, ?_, hbase _⟩
    rw [decodeWord_base64, hdecodes.1, Option.map_some, fromUtf8Lossy_utf8]
  | unpadded =>
    have hquestion : '?' ∉ (Base64.encode (utf8 text)).filter (· ≠ '=') := fun hmem ↦
      hpayload.1 (mem_of_mem_filter hmem)
    have hhead : ((Base64.encode (utf8 text)).filter (· ≠ '=')).head? ≠ some '=' := fun hhead ↦ by
      simpa using of_mem_filter (mem_of_mem_head? hhead)
    refine .inl ⟨_, rfl, closing_dropInfix? after (by decide) hquestion hhead, ?_, hbase _⟩
    rw [decodeWord_base64, hdecodes.2, Option.map_some, fromUtf8Lossy_utf8]
  | @quoted payload hform =>
    by_cases hhead : payload.head? = some '='
    · obtain ⟨rest, rfl⟩ : ∃ rest, payload = '=' :: rest := by
        cases payload with
        | nil => cases hhead
        | cons c rest => exact ⟨rest, by rw [Option.some.inj hhead]⟩
      exact .inr ⟨rest, rfl, hform, rest ++ "?=", by simp⟩
    · refine .inl ⟨_, rfl, closing_dropInfix? after (by decide) hform.question_notMem hhead, ?_, ?_⟩
      · rw [decodeWord_quoted, hform.decodes]
        exact congrArg some (fromUtf8Lossy_utf8 text)
      · rintro ⟨rest, hrest⟩
        have hsign : '=' :: rest = payload ++ "?=" := by
          simpa using hrest
        cases payload with
        | nil => exact absurd (List.cons.inj hsign).1 (by decide)
        | cons c others => exact hhead (congrArg some (List.cons.inj hsign).1.symm)

/-- Every value is decoded without a fault, and the word in a value is replaced by its text exactly
when it does not begin with an escape and the text that results is trimmed. -/
theorem decodeHeaderValue_eq_iff (value : Text) :
    (∃ text, decodeHeaderValue value = .ok text) ∧
      ∀ {before after text word : Text}, IsMarkerFree before → IsMarkerFree after →
        trim text = text → EncodedWord text word →
          (decodeHeaderValue (before ++ word ++ after) = .ok (before ++ text ++ after) ↔
            ¬ StartsEscaped word ∧ trim (before ++ text ++ after) = before ++ text ++ after) := by
  refine ⟨exists_decodeHeaderValue value, ?_⟩
  intro before after text word hbefore hafter htext hword
  rcases hword.found_or_escaped after with
    ⟨encoded, rfl, hclose, hdecode, hstarts⟩ | ⟨payload, rfl, hform, hstarts⟩
  · rw [decodeHeaderValue_of_found hbefore.1 hafter.1 hclose hdecode, Except.ok.injEq]
    exact ⟨fun h ↦ ⟨hstarts, h⟩, fun h ↦ h.2⟩
  · refine iff_of_false (fun hdecoded ↦ ?_) fun h ↦ h.1 hstarts
    set word := "=?" ++ ("UTF-8?Q?" ++ '=' :: payload) ++ "?=" with hwordEq
    -- The word is longer than the text, so the value, trimmed or not, is not the text in its place.
    have hlonger : word ≠ text := fun h ↦ by
      have hlength := (length_le_utf8 text).trans hform.length_le
      have hsame := congrArg List.length h
      have hmarker : "=?".toList.length = 2 := rfl
      rw [hwordEq] at hsame
      simp only [length_append, length_cons, hmarker] at hsame hlength
      omega
    have hcancel {front back : Text} (h : front ++ word ++ back = front ++ text ++ back) : False :=
      hlonger (append_cancel_left (append_cancel_right h))
    rcases decodeHeaderValue_of_escaped hbefore hafter hform with hvalue | hvalue
    · exact hcancel (Except.ok.inj (hvalue.symm.trans hdecoded))
    · have htrimmed := Except.ok.inj (hvalue.symm.trans hdecoded)
      have htextNe : text ≠ [] := fun h ↦ by
        rw [h] at hform
        cases hform
      have hwordTrim : trim word = word := by
        have hsplit : word = [] ++ ['='] ++
            ('?' :: ("UTF-8?Q?" ++ '=' :: payload ++ ['?']) ++ ['=']) := by simp [hwordEq]
        rw [hsplit, trim_around (by decide) (by decide), rdropWhile_concat_neg _ _ _ (by decide)]
        rfl
      have hagain := congrArg trim htrimmed
      rw [trim_trim, trim_around (by simp [hwordEq]) hwordTrim, trim_around htextNe htext] at hagain
      exact hcancel hagain

theorem quotedForm_accent : QuotedForm (utf8 "é") "=C3=A9" := by
  have hlast : QuotedForm [0xA9] "=A9" := .escaped (.inr rfl) (.inl rfl) .nil
  have hboth : QuotedForm [0xC3, 0xA9] "=C3=A9" := .escaped (.inr rfl) (.inl rfl) hlast
  exact hboth

theorem later_escape_decoded :
    decodeHeaderValue "Re: =?UTF-8?Q?n=C3=A9?=!" = .ok "Re: né!" := by
  have hletter : IsLiteral 0x6E := by
    unfold IsLiteral
    decide
  have hform : QuotedForm (utf8 "né") "n=C3=A9" :=
    .literal hletter quotedForm_accent
  have hbefore : IsMarkerFree "Re: " := ⟨by decide, by decide⟩
  have hafter : IsMarkerFree "!" := ⟨by decide, by decide⟩
  have hstarts : ¬ StartsEscaped "=?UTF-8?Q?n=C3=A9?=" := by
    unfold StartsEscaped
    decide
  exact ((decodeHeaderValue_eq_iff []).2 hbefore hafter (by decide) (.quoted hform)).mpr
    ⟨hstarts, by decide⟩

/-- A word of one character, whose first byte is an escape, is handed on as it is. -/
theorem leading_escape_not_decoded :
    IsMarkerFree [] ∧ trim "é" = "é" ∧ EncodedWord "é" "=?UTF-8?Q?=C3=A9?=" ∧
      decodeHeaderValue "=?UTF-8?Q?=C3=A9?=" = .ok "=?UTF-8?Q?=C3=A9?=" ∧
      decodeHeaderValue "=?UTF-8?Q?=C3=A9?=" ≠ .ok "é" :=
  ⟨⟨by decide, by decide⟩, by decide, .quoted quotedForm_accent, by decide, by decide⟩

end GameLauncher.Provisioning
