import GameLauncher.Provisioning.EncodedWords

/-!
# The parsing of mails

`parseMime` cuts a mail into its headers and its body, unfolds the headers and collects the texts of
the parts. A multipart body is cut at the delimiters by plain search in the whole body, at every
level of nesting; the content type, and with it the boundary, is read in lower case.
-/

set_option autoImplicit false

namespace GameLauncher.Provisioning

open Foundation Fallible

/-! ### Headers -/

/-- The values of headers by their lower-case names. -/
abbrev HeaderMap := Text → Option Text

/-- `split_headers_body`: the cut at the first empty line. -/
def splitHeadersBody (raw : Bytes) : Option (Bytes × Bytes) :=
  (raw.dropInfix? [13, 10, 13, 10]).orElse fun _ ↦ raw.dropInfix? [10, 10]

/-- A line without the carriage return at its end. -/
def stripReturn (line : Text) : Text := if line.getLast? = some '\r' then line.dropLast else line

/-- `str::lines`. -/
def lines (text : Text) : List Text :=
  let pieces := text.splitOn '\n'
  pieces.dropLast.map stripReturn ++ (pieces.getLast?.filter fun line ↦ !line.isEmpty).toList

/-- What `parse_headers` has read: the values so far, and the header whose value may go on. -/
structure HeaderScan where
  values : HeaderMap
  currentName : Option Text
  currentValue : Text

/-- The header that was read last is complete. -/
def HeaderScan.complete (scan : HeaderScan) : HeaderMap :=
  match scan.currentName with
  | some name => Function.update scan.values name (some (trim scan.currentValue))
  | none => scan.values

/-- The body of the loop of `parse_headers`. -/
def HeaderScan.next (scan : HeaderScan) (line : Text) : Except ProvisioningError HeaderScan :=
  if line.head? = some ' ' ∨ line.head? = some '\t' then
    if scan.currentName.isSome then
      .ok { scan with currentValue := scan.currentValue ++ ' ' :: trim line }
    else .ok scan
  else do
    let values := scan.complete
    let (name, value) ← orThrow (splitOnce ':' line) (.mail "malformed MIME header")
    let name := toAsciiLowercase (trim name)
    throwIf (name = []) (.mail "MIME header name is empty")
    return ⟨values, some name, trim value⟩

def parseHeaders (raw : Bytes) : Except ProvisioningError HeaderMap := do
  let scan ← (lines (fromUtf8Lossy raw)).foldlM HeaderScan.next ⟨fun _ ↦ none, none, []⟩
  return scan.complete

/-- `parameter`: the value of a parameter of a content type. -/
def parameter (contentType name : Text) : Option Text :=
  ((contentType.splitOn ';').drop 1).findSome? fun part ↦
    (splitOnce '=' (trim part)).bind fun (key, value) ↦
      if eqIgnoreAsciiCase (trim key) name then
        some (((trim value).dropWhile (· == '"')).rdropWhile (· == '"'))
      else none

def extractAddresses (value : Text) : List Text :=
  (value.splitOn ',').filterMap fun part ↦
    let part := trim part
    let address := ((part.reverse.dropInfix? ['<']).bind fun (rest, _) ↦
      (splitOnce '>' rest.reverse).map Prod.fst).getD part
    let address := toAsciiLowercase (trim address)
    if address ≠ [] ∧ '@' ∈ address then some address else none

/-! ### Bodies -/

def isLineEnd (c : Char) : Bool := c == '\r' || c == '\n'

/-- `split_multipart`: what stands between the delimiters, up to the closing one. -/
def splitMultipart (body : Bytes) (boundary : Text) : List Bytes :=
  let marker := "--" ++ boundary
  let segments := ((splitInfix marker (fromUtf8Lossy body)).drop 1).takeWhile fun segment ↦
    !"--".toList.isPrefixOf segment
  (segments.filterMap fun segment ↦
    let segment := (segment.dropWhile isLineEnd).rdropWhile isLineEnd
    if segment = [] then none else some (utf8 segment))

/-- `u8::is_ascii_whitespace`. -/
def isAsciiWhitespace (byte : UInt8) : Bool :=
  byte == 32 || byte == 9 || byte == 10 || byte == 12 || byte == 13

def decodeTransferEncoding (body : Bytes) (encoding : Option Text) :
    Except ProvisioningError Bytes :=
  let encoding := toAsciiLowercase (trim (encoding.getD []))
  if encoding = "base64" then
    orThrow (Base64.decode ((body.filter fun byte ↦ !isAsciiWhitespace byte).map
      fun byte ↦ Char.ofNat byte.toNat)) (.mail "invalid base64 MIME body")
  else if encoding = "quoted-printable" then decodeQuotedPrintable body
  else .ok body

structure ParsedMail where
  messageId : Option Text
  mailFrom : Option Text
  mailTo : List Text
  subject : Option Text
  date : Option Text
  textPlain : Option Text
  textHtml : Option Text
  headers : HeaderMap

/-- A text is appended to those before it as further lines. -/
def appendText (existing : Option Text) (text : Text) : Option Text :=
  match existing with
  | some existing => some (existing ++ '\n' :: text)
  | none => some text

/-- The body of the loop of `parse_part` over the parts of a multipart body. -/
def receivePart (parse : HeaderMap → Bytes → ParsedMail → Except ProvisioningError ParsedMail)
    (parsed : ParsedMail) (part : Bytes) : Except ProvisioningError ParsedMail :=
  match splitHeadersBody part with
  | none => .ok parsed
  | some (partHeaders, partBody) => do
    let partHeaders ← parseHeaders partHeaders
    parse partHeaders partBody parsed

/-- `parse_part`, by the levels of nesting that are left. -/
def parsePart : ℕ → HeaderMap → Bytes → ParsedMail → Except ProvisioningError ParsedMail
  | 0, _, _, _ => .error (.mail "MIME nesting is too deep")
  | levels + 1, headers, body, parsed =>
    let contentType :=
      ((headers "content-type").map toAsciiLowercase).getD "text/plain"
    if "multipart/".toList.isPrefixOf contentType then do
      let boundary ← orThrow (parameter contentType "boundary")
        (.mail "multipart message has no boundary")
      (splitMultipart body boundary).foldlM (receivePart (parsePart levels)) parsed
    else if ¬ "text/plain".toList.isPrefixOf contentType ∧
        ¬ "text/html".toList.isPrefixOf contentType then .ok parsed
    else do
      let decoded ← decodeTransferEncoding body (headers "content-transfer-encoding")
      let text := trim (fromUtf8Lossy decoded)
      if text = [] then return parsed
      else if "text/html".toList.isPrefixOf contentType then
        return { parsed with textHtml := appendText parsed.textHtml text }
      else return { parsed with textPlain := appendText parsed.textPlain text }

/-- A value of the decoding of headers, which never fails. -/
def decodedHeader (value : Text) : Fallible ProvisioningError Text :=
  (decodeHeaderValue value).mapError fun _ ↦ .panic

def parseMime (raw : Bytes) (maxBytes : ℕ) : Fallible ProvisioningError ParsedMail := do
  rejectIf (0 < maxBytes ∧ maxBytes < raw.length)
    (.mail ("inbound message exceeds configured limit of " ++ decimal maxBytes ++ " bytes"))
  let (headerBytes, bodyBytes) ← okOr (splitHeadersBody raw)
    (.mail "MIME message has no header/body separator")
  let headers ← (parseHeaders headerBytes).mapError .error
  let mailFrom ← (headers "from").mapM decodedHeader
  let subject ← (headers "subject").mapM decodedHeader
  let parsed : ParsedMail := {
    messageId := (headers "message-id").map trim
    mailFrom
    mailTo := ((headers "to").map extractAddresses).getD []
    subject
    date := headers "date"
    textPlain := none
    textHtml := none
    headers }
  (parsePart 13 headers bodyBytes parsed).mapError .error

end GameLauncher.Provisioning
