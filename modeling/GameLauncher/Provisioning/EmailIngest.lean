import GameLauncher.Foundation.Base64
import GameLauncher.Provisioning.Manager

/-!
# The ingest of provisioning mails

A mail reaches the API through the email worker, which signs it. Signer and verifier build the text
that is signed on their own: `EmailWorker` is the side of the worker, in TypeScript, with its own
white space and letter case, and `ingestHeaders` with `verifyEmailIngest` the side of the API.
`mail_worker_agrees` says that the API accepts what the worker sends, and that the text determines
what was signed. SHA-256 and HMAC are functions that both sides share.
-/

set_option autoImplicit false

namespace GameLauncher.Provisioning

open Foundation Fallible List Bool

/-! ### Numbers and times as text -/

def integerText (value : ℤ) : Text :=
  if value < 0 then '-' :: decimal value.natAbs else decimal value.natAbs

/-- `i64::from_str`. -/
def parseI64 : Text → Option ℤ
  | '-' :: digits => (parseDigits digits).bind fun value ↦
    if value ≤ 2 ^ 63 then some (-(value : ℤ)) else none
  | '+' :: digits => (parseDigits digits).bind fun value ↦
    if value < 2 ^ 63 then some (value : ℤ) else none
  | digits => (parseDigits digits).bind fun value ↦
    if value < 2 ^ 63 then some (value : ℤ) else none

def nanosecondsPerSecond : ℤ := 10 ^ 9

/-- `DateTime::from_timestamp` of whole seconds, within the years that a `DateTime` has. -/
def fromTimestamp (timestamp : ℤ) : Option ℤ :=
  if -8334601228800 ≤ timestamp ∧ timestamp ≤ 8210266876799 then
    some (timestamp * nanosecondsPerSecond)
  else none

/-- `num_seconds`, which cuts off towards zero. -/
def numSeconds (duration : ℤ) : ℤ := duration.tdiv nanosecondsPerSecond

/-! ### What is signed -/

/-- The hash functions that signer and verifier share. -/
structure MailHashes where
  sha256 : Bytes → Digest
  hmacSha256 : Bytes → Bytes → Digest

structure EmailIngestHeaders where
  timestamp : ℤ
  nonce : Text
  signature : Text
  envelopeFrom : Option Text
  envelopeTo : Text
  deriving DecidableEq, Repr

structure EmailIngestVerification where
  timestamp : ℤ
  nonce : Text
  bodySha256 : Text
  envelopeFrom : Option Text
  envelopeTo : Text
  deriving DecidableEq, Repr

def canonicalEmailPayload (timestamp : ℤ) (nonce bodySha256 : Text) (envelopeFrom : Option Text)
    (envelopeTo : Text) : Text :=
  integerText timestamp ++ '\n' :: nonce ++ '\n' :: bodySha256 ++ '\n' :: envelopeFrom.getD [] ++
    '\n' :: envelopeTo

/-- `verify_email_ingest`, at a time in nanoseconds, with an allowed skew in seconds. -/
def verifyEmailIngest (hashes : MailHashes) (headers : EmailIngestHeaders) (secret body : Bytes)
    (now allowedClockSkew : ℤ) : Except ProvisioningError EmailIngestVerification := do
  throwIf (trim headers.nonce = [] ∨ trim headers.envelopeTo = [])
    (.security "missing mail nonce or recipient")
  let timestamp ← orThrow (fromTimestamp headers.timestamp)
    (.security "invalid mail timestamp")
  let age := (numSeconds (now - timestamp)).natAbs
  throwIf (max allowedClockSkew 0 < age)
    (.security "mail signature timestamp is outside the allowed skew")
  let bodySha256 := (hashes.sha256 body).hex
  let canonical := canonicalEmailPayload headers.timestamp headers.nonce bodySha256
    headers.envelopeFrom headers.envelopeTo
  let supplied ← orThrow (Base64.decode headers.signature)
    (.security "mail signature is not valid base64")
  throwIf (supplied ≠ (hashes.hmacSha256 secret (utf8 canonical)).bytes)
    (.security "mail signature mismatch")
  return {
    timestamp := headers.timestamp
    nonce := headers.nonce
    bodySha256
    envelopeFrom := headers.envelopeFrom
    envelopeTo := headers.envelopeTo }

/-! ### The API -/

/-- The error of the handler before a mail is authenticated. -/
inductive IngestError
  | mailAuthenticationFailed
  deriving DecidableEq, Repr

/-- `HeaderValue::to_str`. -/
def headerText (value : Text) : Option Text :=
  if value.all fun c ↦ (32 ≤ c.toNat && c.toNat < 127) || c.toNat == 9 then some value else none

def header (headers : List (Text × Text)) (name : String) : Option Text :=
  (headers.find? fun entry ↦ entry.1 = name.toList).bind fun entry ↦ headerText entry.2

/-- The extraction of the headers by the email ingest handler. -/
def ingestHeaders (headers : List (Text × Text)) : Except IngestError EmailIngestHeaders := do
  let timestamp ← orThrow ((header headers "x-mail-timestamp").bind parseI64)
    .mailAuthenticationFailed
  let nonce ← orThrow (header headers "x-mail-nonce") .mailAuthenticationFailed
  let signature ← orThrow (header headers "x-mail-signature") .mailAuthenticationFailed
  let envelopeTo ← orThrow (header headers "x-envelope-to") .mailAuthenticationFailed
  let envelopeFrom := (header headers "x-envelope-from").filter fun value ↦ !(trim value).isEmpty
  return {
    timestamp
    nonce
    signature
    envelopeFrom
    envelopeTo := toAsciiLowercase (trim envelopeTo) }

/-! ### The email worker -/

namespace EmailWorker

/-- JavaScript's letter case, of which only what it does to ASCII text matters here. -/
structure LetterCase where
  toLowerCase : Text → Text
  toLowerCase_of_ascii : ∀ text, (∀ c ∈ text, IsAscii c) → toLowerCase text = toAsciiLowercase text

/-- JavaScript's white space and line terminators. -/
def isScriptSpace (c : Char) : Bool :=
  (isWhitespace c && c.toNat != 0x85) || c.toNat == 0xFEFF

/-- JavaScript's `trim`. -/
def scriptTrim (text : Text) : Text := (text.dropWhile isScriptSpace).rdropWhile isScriptSpace

/-- `value || undefined` on a string. -/
def orUndefined (value : Text) : Option Text := if value = [] then none else some value

structure Env where
  provisioningIngestUrl : Text
  ingestHmacSecret : Text
  deriving DecidableEq, Repr

structure EmailMessage where
  envelopeFrom : Text
  envelopeTo : Text
  raw : Bytes
  deriving DecidableEq, Repr

/-- The request that the worker sends. -/
structure IngestRequest where
  url : Text
  headers : List (Text × Text)
  body : Bytes
  deriving DecidableEq, Repr

def canonicalEmailPayload (timestamp : ℤ) (nonce bodySha256 : Text) (envelopeFrom : Option Text)
    (envelopeTo : Text) : Text :=
  "\n".toList.intercalate
    [integerText timestamp, nonce, bodySha256, envelopeFrom.getD [], envelopeTo]

/-- `signEmailEvent`, with a secret. -/
def signEmailEvent (hashes : MailHashes) (secret : Text) (timestamp : ℤ) (nonce : Text)
    (envelopeFrom : Option Text) (envelopeTo : Text) (rawMime : Bytes) : Text :=
  let bodySha256 := toHex (hashes.sha256 rawMime).bytes
  let payload := canonicalEmailPayload timestamp nonce bodySha256 envelopeFrom envelopeTo
  Base64.encode (hashes.hmacSha256 (utf8 secret) (utf8 payload)).bytes

/-- `randomNonce`, on its random bytes. -/
def randomNonce (bytes : Bytes) : Text := toHex bytes

def requestHeaders (timestamp : ℤ) (nonce signature : Text) (envelopeFrom : Option Text)
    (envelopeTo : Text) : List (Text × Text) :=
  [("content-type", "message/rfc822"),
    ("x-mail-timestamp", integerText timestamp), ("x-mail-nonce", nonce),
    ("x-mail-signature", signature), ("x-envelope-from", envelopeFrom.getD []),
    ("x-envelope-to", envelopeTo)]

/-- `email`, up to the request: a mail is rejected without a configuration. The clock is in
milliseconds. -/
def email (hashes : MailHashes) (letterCase : LetterCase) (env : Env) (message : EmailMessage)
    (clock : ℤ) (randomBytes : Bytes) : Option IngestRequest :=
  if env.provisioningIngestUrl = [] ∨ env.ingestHmacSecret = [] then none
  else
    let timestamp := clock / 1000
    let nonce := randomNonce randomBytes
    let envelopeFrom := orUndefined (scriptTrim message.envelopeFrom)
    let envelopeTo := letterCase.toLowerCase (scriptTrim message.envelopeTo)
    let signature := signEmailEvent hashes env.ingestHmacSecret timestamp nonce envelopeFrom
      envelopeTo message.raw
    some {
      url := env.provisioningIngestUrl
      headers := requestHeaders timestamp nonce signature envelopeFrom envelopeTo
      body := message.raw }

end EmailWorker

/-! ### White space and letter case -/

/-- A visible ASCII character or a space. -/
def IsPrintable (c : Char) : Prop := 32 ≤ c.toNat ∧ c.toNat ≤ 126

instance (c : Char) : Decidable (IsPrintable c) :=
  inferInstanceAs (Decidable (32 ≤ c.toNat ∧ c.toNat ≤ 126))

theorem IsPrintable.ascii {c : Char} (h : IsPrintable c) : IsAscii c := by
  unfold IsPrintable at h
  unfold IsAscii
  omega

theorem headerText_of_printable {text : Text} (h : ∀ c ∈ text, IsPrintable c) :
    headerText text = some text := by
  refine if_pos (all_eq_true.mpr fun c hc ↦ ?_)
  have hprintable := h c hc
  unfold IsPrintable at hprintable
  simp only [or_eq_true, and_eq_true, decide_eq_true_eq]
  exact .inl ⟨hprintable.1, by omega⟩

theorem scriptTrim_of_ascii {text : Text} (h : ∀ c ∈ text, IsAscii c) :
    EmailWorker.scriptTrim text = trim text := by
  have hspace {c : Char} (hc : IsAscii c) : EmailWorker.isScriptSpace c = isWhitespace c := by
    unfold IsAscii at hc
    have hnext : (c.toNat != 0x85) = true := bne_iff_ne.mpr (by omega)
    have hmark : (c.toNat == 0xFEFF) = false := beq_eq_false_iff_ne.mpr (by omega)
    rw [EmailWorker.isScriptSpace, hnext, hmark, Bool.and_true, Bool.or_false]
  have hdrop : text.dropWhile EmailWorker.isScriptSpace = text.dropWhile isWhitespace := by
    induction text with
    | nil => rfl
    | cons c rest ih =>
      rw [dropWhile_cons, dropWhile_cons, hspace (h c mem_cons_self),
        ih fun d hd ↦ h d (mem_cons_of_mem c hd)]
  have hascii : ∀ c ∈ text.dropWhile isWhitespace, IsAscii c :=
    fun c hc ↦ h c ((dropWhile_sublist _).subset hc)
  unfold EmailWorker.scriptTrim trim
  rw [hdrop]
  generalize text.dropWhile isWhitespace = rest at hascii
  induction rest using List.reverseRecOn with
  | nil => rfl
  | append_singleton front c ih =>
    rw [rdropWhile_concat, rdropWhile_concat, hspace (hascii c (by simp)),
      ih fun d hd ↦ hascii d (mem_append_left _ hd)]

/-- `char::to_ascii_lowercase`. -/
def lowerChar (c : Char) : Char :=
  if 65 ≤ c.toNat ∧ c.toNat ≤ 90 then Char.ofNat (c.toNat + 32) else c

theorem toAsciiLowercase_eq_map (text : Text) : toAsciiLowercase text = text.map lowerChar := rfl

theorem toNat_lowerChar (c : Char) : (lowerChar c).toNat =
    if 65 ≤ c.toNat ∧ c.toNat ≤ 90 then c.toNat + 32 else c.toNat := by
  unfold lowerChar
  split_ifs with hupper
  · have hvalid : (c.toNat + 32).isValidChar := .inl (by omega)
    rw [Char.ofNat, dif_pos hvalid]
    rfl
  · rfl

theorem lowerChar_lowerChar (c : Char) : lowerChar (lowerChar c) = lowerChar c := by
  refine if_neg fun hupper ↦ ?_
  rw [toNat_lowerChar] at hupper
  split_ifs at hupper <;> omega

theorem isWhitespace_lowerChar (c : Char) : isWhitespace (lowerChar c) = isWhitespace c := by
  unfold isWhitespace
  rw [toNat_lowerChar]
  split_ifs with hupper
  · rw [Bool.eq_iff_iff]
    simp only [isWhiteSpace, or_eq_true, and_eq_true, beq_iff_eq, decide_eq_true_eq]
    omega
  · rfl

theorem IsPrintable.lowerChar {c : Char} (h : IsPrintable c) : IsPrintable (lowerChar c) := by
  unfold IsPrintable at h ⊢
  rw [toNat_lowerChar]
  split_ifs <;> omega

theorem toAsciiLowercase_idempotent (text : Text) :
    toAsciiLowercase (toAsciiLowercase text) = toAsciiLowercase text := by
  simp only [toAsciiLowercase_eq_map, map_map]
  exact map_congr_left fun c _ ↦ lowerChar_lowerChar c

theorem printable_toAsciiLowercase {text : Text} (h : ∀ c ∈ text, IsPrintable c) :
    ∀ c ∈ toAsciiLowercase text, IsPrintable c := by
  intro c hc
  obtain ⟨before, hbefore, rfl⟩ := mem_map.mp hc
  exact (h before hbefore).lowerChar

theorem trim_toAsciiLowercase (text : Text) :
    trim (toAsciiLowercase text) = toAsciiLowercase (trim text) := by
  simp only [toAsciiLowercase_eq_map]
  have hdrop : (text.map lowerChar).dropWhile isWhitespace =
      (text.dropWhile isWhitespace).map lowerChar := by
    induction text with
    | nil => rfl
    | cons c rest ih =>
      rw [map_cons, dropWhile_cons, isWhitespace_lowerChar, dropWhile_cons]
      split_ifs
      · exact ih
      · rfl
  unfold trim
  rw [hdrop]
  generalize text.dropWhile isWhitespace = rest
  induction rest using List.reverseRecOn with
  | nil => rfl
  | append_singleton front c ih =>
    rw [map_append, map_singleton, rdropWhile_concat, isWhitespace_lowerChar, rdropWhile_concat]
    split_ifs
    · exact ih
    · rw [map_append, map_singleton]

/-! ### Numbers read back -/

theorem parseI64_integerText {value : ℤ} (hlow : -2 ^ 63 ≤ value) (hhigh : value < 2 ^ 63) :
    parseI64 (integerText value) = some value := by
  unfold integerText
  split_ifs with hsign
  · have hbound : value.natAbs ≤ 2 ^ 63 := by omega
    have hvalue : -(value.natAbs : ℤ) = value := by omega
    rw [parseI64, parseDigits_decimal, Option.bind_some, if_pos hbound, hvalue]
  · have hbound : value.natAbs < 2 ^ 63 := by omega
    have hvalue : (value.natAbs : ℤ) = value := by omega
    have hdigit : ∀ c ∈ decimal value.natAbs, c ≠ '-' ∧ c ≠ '+' := by
      intro c hc
      have hdigit := isDigit_of_mem_decimal hc
      constructor
      · rintro rfl
        exact absurd hdigit (by decide)
      · rintro rfl
        exact absurd hdigit (by decide)
    rw [parseI64, parseDigits_decimal, Option.bind_some, if_pos hbound, hvalue]
    · intro digits hdigits
      exact (hdigit '-' (hdigits ▸ mem_cons_self)).1 rfl
    · intro digits hdigits
      exact (hdigit '+' (hdigits ▸ mem_cons_self)).2 rfl

theorem printable_integerText {value : ℤ} {c : Char} (h : c ∈ integerText value) :
    IsPrintable c := by
  have hdigit {number : ℕ} (hc : c ∈ decimal number) : IsPrintable c := by
    have hdigit := isDigit_of_mem_decimal hc
    unfold Char.isDigit at hdigit
    simp only [and_eq_true, decide_eq_true_eq, UInt32.le_iff_toNat_le] at hdigit
    have hlow : 48 ≤ c.toNat := hdigit.1
    have hhigh : c.toNat ≤ 57 := hdigit.2
    exact ⟨by omega, by omega⟩
  unfold integerText at h
  split_ifs at h
  · rcases mem_cons.mp h with rfl | h
    · decide
    · exact hdigit h
  · exact hdigit h

theorem integerText_injective : Function.Injective integerText := by
  have hsign {first second : ℤ} (hfirst : first < 0) (hsecond : ¬ second < 0)
      (h : integerText first = integerText second) : False := by
    rw [integerText, integerText, if_pos hfirst, if_neg hsecond] at h
    have hdigit := isDigit_of_mem_decimal (h ▸ mem_cons_self : '-' ∈ decimal second.natAbs)
    exact absurd hdigit (by decide)
  intro first second h
  by_cases hfirst : first < 0
  · by_cases hsecond : second < 0
    · rw [integerText, integerText, if_pos hfirst, if_pos hsecond] at h
      have habs := decimal_injective (List.cons.inj h).2
      omega
    · exact (hsign hfirst hsecond h).elim
  · by_cases hsecond : second < 0
    · exact (hsign hsecond hfirst h.symm).elim
    · rw [integerText, integerText, if_neg hfirst, if_neg hsecond] at h
      have habs := decimal_injective h
      omega

/-! ### The text that is signed -/

theorem canonicalEmailPayload_eq (timestamp : ℤ) (nonce bodySha256 : Text)
    (envelopeFrom : Option Text) (envelopeTo : Text) :
    EmailWorker.canonicalEmailPayload timestamp nonce bodySha256 envelopeFrom envelopeTo =
      canonicalEmailPayload timestamp nonce bodySha256 envelopeFrom envelopeTo := by
  simp [EmailWorker.canonicalEmailPayload, canonicalEmailPayload, List.intercalate]

/-- What comes before the first line break is determined. -/
theorem append_newline_inj {first second rest other : Text} (hfirst : '\n' ∉ first)
    (hsecond : '\n' ∉ second) (h : first ++ '\n' :: rest = second ++ '\n' :: other) :
    first = second ∧ rest = other := by
  induction first generalizing second with
  | nil =>
    cases second with
    | nil => exact ⟨rfl, (List.cons.inj h).2⟩
    | cons d second =>
      obtain ⟨rfl, -⟩ := List.cons.inj h
      exact absurd mem_cons_self hsecond
  | cons c first ih =>
    cases second with
    | nil =>
      obtain ⟨rfl, -⟩ := List.cons.inj h
      exact absurd mem_cons_self hfirst
    | cons d second =>
      obtain ⟨rfl, htail⟩ := List.cons.inj h
      obtain ⟨rfl, hrest⟩ := ih (fun hmem ↦ hfirst (mem_cons_of_mem _ hmem))
        (fun hmem ↦ hsecond (mem_cons_of_mem _ hmem)) htail
      exact ⟨rfl, hrest⟩

theorem newline_notMem_integerText (value : ℤ) : '\n' ∉ integerText value := by
  intro h
  exact absurd (printable_integerText h) (by decide)

/-- Fields without a line break are determined by the text, up to an absent sender, which is the
same as an empty one. -/
theorem canonicalEmailPayload_inj {timestamp other : ℤ} {nonce nonce' body body' : Text}
    {sender sender' : Option Text} {recipient recipient' : Text} (hnonce : '\n' ∉ nonce)
    (hnonce' : '\n' ∉ nonce') (hbody : '\n' ∉ body) (hbody' : '\n' ∉ body')
    (hsender : '\n' ∉ sender.getD []) (hsender' : '\n' ∉ sender'.getD [])
    (h : canonicalEmailPayload timestamp nonce body sender recipient =
      canonicalEmailPayload other nonce' body' sender' recipient') :
    timestamp = other ∧ nonce = nonce' ∧ body = body' ∧ sender.getD [] = sender'.getD [] ∧
      recipient = recipient' := by
  simp only [canonicalEmailPayload, append_assoc, cons_append] at h
  obtain ⟨htimestamp, hfields⟩ := append_newline_inj (newline_notMem_integerText _)
    (newline_notMem_integerText _) h
  obtain ⟨hsameNonce, hdigest⟩ := append_newline_inj hnonce hnonce' hfields
  obtain ⟨hsameBody, henvelope⟩ := append_newline_inj hbody hbody' hdigest
  obtain ⟨hfrom, hto⟩ := append_newline_inj hsender hsender' henvelope
  exact ⟨integerText_injective htimestamp, hsameNonce, hsameBody, hfrom, hto⟩

/-! ### Worker and API -/

theorem header_cons {name : String} {value : Text} {rest : List (Text × Text)} :
    header ((name.toList, value) :: rest) name = headerText value := by
  simp [header]

theorem header_cons_of_ne {name other : String} {value : Text} {rest : List (Text × Text)}
    (h : other.toList ≠ name.toList) :
    header ((other.toList, value) :: rest) name = header rest name := by
  simp [header, h]

theorem ingestHeaders_requestHeaders {timestamp : ℤ} {nonce signature recipient : Text}
    {sender : Option Text} (hlow : -2 ^ 63 ≤ timestamp) (hhigh : timestamp < 2 ^ 63)
    (hnonce : ∀ c ∈ nonce, IsPrintable c) (hsignature : ∀ c ∈ signature, IsPrintable c)
    (hsender : ∀ c ∈ sender.getD [], IsPrintable c) (hrecipient : ∀ c ∈ recipient, IsPrintable c) :
    ingestHeaders (EmailWorker.requestHeaders timestamp nonce signature sender recipient) = .ok {
        timestamp
        nonce
        signature
        envelopeFrom := (some (sender.getD [])).filter fun value ↦ !(trim value).isEmpty
        envelopeTo := toAsciiLowercase (trim recipient) } := by
  unfold ingestHeaders
  generalize hheaders : EmailWorker.requestHeaders timestamp nonce signature sender recipient =
    headers
  have htimestampHeader : header headers "x-mail-timestamp" = some (integerText timestamp) := by
    rw [← hheaders, EmailWorker.requestHeaders, header_cons_of_ne (by decide), header_cons,
      headerText_of_printable fun c hc ↦ printable_integerText hc]
  have hnonceHeader : header headers "x-mail-nonce" = some nonce := by
    rw [← hheaders, EmailWorker.requestHeaders, header_cons_of_ne (by decide),
      header_cons_of_ne (by decide), header_cons, headerText_of_printable hnonce]
  have hsignatureHeader : header headers "x-mail-signature" = some signature := by
    rw [← hheaders, EmailWorker.requestHeaders, header_cons_of_ne (by decide),
      header_cons_of_ne (by decide), header_cons_of_ne (by decide), header_cons,
      headerText_of_printable hsignature]
  have hsenderHeader : header headers "x-envelope-from" = some (sender.getD []) := by
    rw [← hheaders, EmailWorker.requestHeaders, header_cons_of_ne (by decide),
      header_cons_of_ne (by decide), header_cons_of_ne (by decide), header_cons_of_ne (by decide),
      header_cons, headerText_of_printable hsender]
  have hrecipientHeader : header headers "x-envelope-to" = some recipient := by
    rw [← hheaders, EmailWorker.requestHeaders, header_cons_of_ne (by decide),
      header_cons_of_ne (by decide), header_cons_of_ne (by decide), header_cons_of_ne (by decide),
      header_cons_of_ne (by decide), header_cons, headerText_of_printable hrecipient]
  rw [htimestampHeader, hnonceHeader, hsignatureHeader, hsenderHeader, hrecipientHeader,
    Option.bind_some, parseI64_integerText hlow hhigh]
  rfl

theorem sender_roundtrip {text : Text} :
    (some ((EmailWorker.orUndefined (trim text)).getD [])).filter
      (fun value ↦ !(trim value).isEmpty) = EmailWorker.orUndefined (trim text) := by
  unfold EmailWorker.orUndefined
  split_ifs with hblank
  · rfl
  · rw [Option.getD_some, Option.filter_some, trim_trim, if_pos]
    rwa [Bool.not_eq_true', isEmpty_eq_false_iff]

theorem age_le {now timestamp skew : ℤ}
    (h : |now - timestamp * nanosecondsPerSecond| ≤ skew * nanosecondsPerSecond) :
    ¬ max skew 0 < (numSeconds (now - timestamp * nanosecondsPerSecond)).natAbs := by
  have hseconds : (numSeconds (now - timestamp * nanosecondsPerSecond)).natAbs =
      (now - timestamp * nanosecondsPerSecond).natAbs / 10 ^ 9 := Int.natAbs_tdiv _ _
  rw [hseconds]
  rw [Int.abs_eq_natAbs] at h
  unfold nanosecondsPerSecond at h ⊢
  omega

theorem randomNonce_facts {randomBytes : Bytes} (h : randomBytes.length = 16) :
    (∀ c ∈ EmailWorker.randomNonce randomBytes, IsPrintable c) ∧
      trim (EmailWorker.randomNonce randomBytes) ≠ [] := by
  constructor
  · intro c hc
    have hdigit := isHexChar_of_mem_toHex hc
    unfold IsHexChar at hdigit
    exact ⟨by omega, by omega⟩
  · rw [ne_eq, trim_eq_nil_iff]
    intro hspaces
    have hlength : (toHex randomBytes).length = 32 := by rw [length_toHex, h]
    obtain ⟨c, hc⟩ := exists_mem_of_length_pos (by omega : 0 < (toHex randomBytes).length)
    have hdigit := isHexChar_of_mem_toHex hc
    have hspace := hspaces c hc
    unfold IsHexChar at hdigit
    simp only [isWhitespace, isWhiteSpace, or_eq_true, and_eq_true, beq_iff_eq,
      decide_eq_true_eq] at hspace
    omega

/-- The signature over what the API reads. -/
def signature (hashes : MailHashes) (secret : Bytes) (timestamp : ℤ) (nonce : Text)
    (envelopeFrom : Option Text) (envelopeTo : Text) (body : Bytes) : Text :=
  Base64.encode (hashes.hmacSha256 secret (utf8 (canonicalEmailPayload timestamp nonce
    (hashes.sha256 body).hex envelopeFrom envelopeTo))).bytes

theorem printable_signature {hashes : MailHashes} {secret body : Bytes} {timestamp : ℤ}
    {nonce recipient : Text} {sender : Option Text} :
    ∀ c ∈ signature hashes secret timestamp nonce sender recipient body, IsPrintable c := by
  intro c hc
  have hvisible := Base64.visible_of_mem_encode hc
  exact ⟨by omega, hvisible.2⟩

theorem email_eq {hashes : MailHashes} {letterCase : EmailWorker.LetterCase}
    {env : EmailWorker.Env} {message : EmailWorker.EmailMessage} {clock : ℤ} {randomBytes : Bytes}
    (hurl : env.provisioningIngestUrl ≠ []) (hsecret : env.ingestHmacSecret ≠ [])
    (hfrom : ∀ c ∈ message.envelopeFrom, IsPrintable c)
    (hto : ∀ c ∈ message.envelopeTo, IsPrintable c) :
    let nonce := EmailWorker.randomNonce randomBytes
    let sender := EmailWorker.orUndefined (trim message.envelopeFrom)
    let recipient := toAsciiLowercase (trim message.envelopeTo)
    EmailWorker.email hashes letterCase env message clock randomBytes = some {
      url := env.provisioningIngestUrl
      headers := EmailWorker.requestHeaders (clock / 1000) nonce
        (signature hashes (utf8 env.ingestHmacSecret) (clock / 1000) nonce sender recipient
          message.raw) sender recipient
      body := message.raw } := by
  have hsenderTrim := scriptTrim_of_ascii fun c hc ↦ (hfrom c hc).ascii
  have hrecipientTrim := scriptTrim_of_ascii fun c hc ↦ (hto c hc).ascii
  have hlower : letterCase.toLowerCase (trim message.envelopeTo) =
      toAsciiLowercase (trim message.envelopeTo) :=
    letterCase.toLowerCase_of_ascii _ fun c hc ↦ (hto c (mem_of_mem_trim hc)).ascii
  rw [EmailWorker.email, if_neg (not_or.mpr ⟨hurl, hsecret⟩)]
  simp only [hsenderTrim, hrecipientTrim, hlower, EmailWorker.signEmailEvent,
    canonicalEmailPayload_eq]
  rfl

theorem verifyEmailIngest_of_signature {hashes : MailHashes} (headers : EmailIngestHeaders)
    {secret body : Bytes} {now skew : ℤ} (hnonce : trim headers.nonce ≠ [])
    (hrecipient : trim headers.envelopeTo ≠ [])
    (hdate : fromTimestamp headers.timestamp = some (headers.timestamp * nanosecondsPerSecond))
    (hclock : |now - headers.timestamp * nanosecondsPerSecond| ≤ skew * nanosecondsPerSecond)
    (hsignature : headers.signature = signature hashes secret headers.timestamp headers.nonce
      headers.envelopeFrom headers.envelopeTo body) :
    ∃ verification, verifyEmailIngest hashes headers secret body now skew = .ok verification := by
  unfold verifyEmailIngest
  rw [hdate, hsignature, signature, Base64.decode_encode]
  simp only [bind_eq_ok, throwIf_eq_ok, orThrow_eq_ok, Option.some.injEq, pure_eq_ok, exists_const,
    exists_eq_left']
  exact ⟨_, not_or.mpr ⟨hnonce, hrecipient⟩, age_le hclock, not_not.mpr rfl, rfl⟩

/-- The API accepts what the email worker sends, and the text that is signed determines what was
signed. -/
theorem mail_worker_agrees (hashes : MailHashes) (letterCase : EmailWorker.LetterCase) :
    (∀ (env : EmailWorker.Env) (message : EmailWorker.EmailMessage) (clock now skew : ℤ)
      (randomBytes : Bytes), env.provisioningIngestUrl ≠ [] → env.ingestHmacSecret ≠ [] →
      randomBytes.length = 16 → (∀ c ∈ message.envelopeFrom, IsPrintable c) →
      (∀ c ∈ message.envelopeTo, IsPrintable c) → ¬ IsBlank message.envelopeTo →
      (fromTimestamp (clock / 1000)).isSome = true →
      |now - clock / 1000 * nanosecondsPerSecond| ≤ skew * nanosecondsPerSecond →
      ∃ request headers verification,
        EmailWorker.email hashes letterCase env message clock randomBytes = some request ∧
        ingestHeaders request.headers = .ok headers ∧
        verifyEmailIngest hashes headers (utf8 env.ingestHmacSecret) request.body now skew =
          .ok verification) ∧
    ∀ (first second : EmailIngestVerification),
      (∀ fields, fields = first ∨ fields = second → '\n' ∉ fields.nonce ∧
        '\n' ∉ fields.bodySha256 ∧ '\n' ∉ fields.envelopeFrom.getD [] ∧
        '\n' ∉ fields.envelopeTo) →
      canonicalEmailPayload first.timestamp first.nonce first.bodySha256 first.envelopeFrom
          first.envelopeTo =
        canonicalEmailPayload second.timestamp second.nonce second.bodySha256 second.envelopeFrom
          second.envelopeTo →
      first.timestamp = second.timestamp ∧ first.nonce = second.nonce ∧
        first.bodySha256 = second.bodySha256 ∧
        first.envelopeFrom.getD [] = second.envelopeFrom.getD [] ∧
        first.envelopeTo = second.envelopeTo := by
  constructor
  · intro env message clock now skew randomBytes hurl hsecret hrandom hfrom hto hblank hdate hclock
    have hrange : -8334601228800 ≤ clock / 1000 ∧ clock / 1000 ≤ 8210266876799 := by
      by_contra hrange
      rw [fromTimestamp, if_neg hrange] at hdate
      exact false_ne_true hdate
    obtain ⟨hnonce, hnonceBlank⟩ := randomNonce_facts hrandom
    have hsender : ∀ c ∈ (EmailWorker.orUndefined (trim message.envelopeFrom)).getD [],
        IsPrintable c := by
      unfold EmailWorker.orUndefined
      split_ifs
      · exact fun c hc ↦ absurd hc not_mem_nil
      · exact fun c hc ↦ hfrom c (mem_of_mem_trim hc)
    have hrecipient : ∀ c ∈ toAsciiLowercase (trim message.envelopeTo), IsPrintable c :=
      printable_toAsciiLowercase fun c hc ↦ hto c (mem_of_mem_trim hc)
    -- the API trims and lowers a recipient that is trimmed and lower-case
    have hagain : toAsciiLowercase (trim (toAsciiLowercase (trim message.envelopeTo))) =
        toAsciiLowercase (trim message.envelopeTo) := by
      rw [trim_toAsciiLowercase, trim_trim, toAsciiLowercase_idempotent]
    have hrecipientBlank : trim (toAsciiLowercase (trim message.envelopeTo)) ≠ [] := by
      rw [trim_toAsciiLowercase, trim_trim, toAsciiLowercase_eq_map, ne_eq, map_eq_nil_iff,
        trim_eq_nil_iff]
      exact hblank
    have hheaders := ingestHeaders_requestHeaders (by omega : -2 ^ 63 ≤ clock / 1000)
      (by omega : clock / 1000 < 2 ^ 63) hnonce
      (@printable_signature hashes (utf8 env.ingestHmacSecret) message.raw (clock / 1000)
        (EmailWorker.randomNonce randomBytes) (toAsciiLowercase (trim message.envelopeTo))
        (EmailWorker.orUndefined (trim message.envelopeFrom))) hsender hrecipient
    rw [sender_roundtrip, hagain] at hheaders
    have hemail := @email_eq hashes letterCase env message clock randomBytes hurl hsecret hfrom hto
    obtain ⟨verification, hverified⟩ := @verifyEmailIngest_of_signature hashes
      { timestamp := clock / 1000
        nonce := EmailWorker.randomNonce randomBytes
        signature := signature hashes (utf8 env.ingestHmacSecret) (clock / 1000)
          (EmailWorker.randomNonce randomBytes)
          (EmailWorker.orUndefined (trim message.envelopeFrom))
          (toAsciiLowercase (trim message.envelopeTo)) message.raw
        envelopeFrom := EmailWorker.orUndefined (trim message.envelopeFrom)
        envelopeTo := toAsciiLowercase (trim message.envelopeTo) }
      (utf8 env.ingestHmacSecret) message.raw now skew hnonceBlank hrecipientBlank (if_pos hrange)
      hclock rfl
    exact ⟨_, _, verification, hemail, hheaders, hverified⟩
  · intro first second hfields h
    obtain ⟨hnonce, hbody, hsender, -⟩ := hfields first (.inl rfl)
    obtain ⟨hnonce', hbody', hsender', -⟩ := hfields second (.inr rfl)
    exact canonicalEmailPayload_inj hnonce hnonce' hbody hbody' hsender hsender' h

def sampleHashes : MailHashes where
  sha256 _ := ⟨[59, 2, 203, 41, 103, 107, 196, 72, 198, 157, 161, 236, 94, 239, 124, 137, 244, 214,
    220, 106, 90, 124, 224, 41, 110, 162, 91, 32, 126, 234, 54, 190], rfl⟩
  hmacSha256 _ _ := ⟨[156, 36, 162, 0, 97, 144, 81, 17, 171, 92, 117, 225, 208, 74, 174, 208, 96, 91,
    244, 181, 141, 97, 22, 225, 7, 117, 232, 4, 165, 208, 229, 244], rfl⟩

/-- The mail that the sample hashes belong to, with its secret and its nonce. -/
theorem mail_worker_agrees_sample :
    ∃ request headers verification, EmailWorker.email sampleHashes ⟨toAsciiLowercase, fun _ _ ↦ rfl⟩
          ⟨"https://ingest", "shared-secret"⟩
          ⟨"sender@example.test", " P@example.test", utf8 "raw message"⟩
          1700000000250 ((List.range 16).map UInt8.ofNat) = some request ∧
        ingestHeaders request.headers = .ok headers ∧
        verifyEmailIngest sampleHashes headers (utf8 "shared-secret") request.body
            1700000300000000000 300 = .ok verification :=
  (mail_worker_agrees sampleHashes ⟨toAsciiLowercase, fun _ _ ↦ rfl⟩).1
    ⟨"https://ingest", "shared-secret"⟩
    ⟨"sender@example.test", " P@example.test", utf8 "raw message"⟩
    1700000000250 1700000300000000000 300 ((List.range 16).map UInt8.ofNat) (by decide) (by decide)
    (by decide) (forall_mem_of_all (by decide)) (forall_mem_of_all (by decide))
    (fun hblank ↦ absurd (hblank 'P' (by decide)) (by decide)) (by decide) (by decide)

end GameLauncher.Provisioning
