import GameLauncher.Provisioning.Multipart

/-!
# The recovery of multipart mails

`MailParts` are the parts of a multipart mail, nested as deep as one likes: texts in a transfer
encoding, parts of other types, and multipart parts with a boundary of their own.
`MultipartMail.render` writes the mail. `parseMime_multipart` is the recovery: the mail is parsed,
and its texts are those of its parts, joined with a newline.

It does not hold for all mails that a standard renderer writes. The parser reads a boundary in lower
case, finds a delimiter also within a line, takes any media type that begins with that of a text for
it, and cuts the line end off a soft line break at the end of a part.
-/

set_option autoImplicit false

namespace GameLauncher.Provisioning

open Foundation Fallible List

/-! ### Mails -/

inductive TextKind
  | plain
  | html
  deriving DecidableEq, Repr

def TextKind.contentType : TextKind → Text
  | .plain => "text/plain; charset=utf-8"
  | .html => "text/html; charset=utf-8"

/-- The headers of a part before and after those that say how it is read. -/
structure PartFields where
  leading : List HeaderField
  trailing : List HeaderField

namespace PartFields

def around (fields : PartFields) (own : List HeaderField) : List HeaderField :=
  fields.leading ++ own ++ fields.trailing

/-- Headers that a part may have of its own. -/
def Valid (fields : PartFields) (reserved : List Text) : Prop :=
  ∀ field ∈ fields.leading ++ fields.trailing, field.Valid ∧ field.key ∉ reserved

end PartFields

def contentTypeField (value : Text) : HeaderField := ⟨"Content-Type", value, []⟩

def transferEncodingField (encoding : TransferEncoding) : HeaderField :=
  ⟨"Content-Transfer-Encoding", encoding.token, []⟩

inductive MailParts
  | done
  | text (fields : PartFields) (kind : TextKind) (encoding : TransferEncoding)
      (content body : Text) (rest : MailParts)
  | other (fields : PartFields) (contentType : Text) (body : Bytes) (rest : MailParts)
  | nested (fields : PartFields) (subtype boundary : Text) (inner rest : MailParts)

def mediaType (contentType : Text) : Text :=
  (toAsciiLowercase (trim contentType)).takeWhile fun c ↦ c != ';' && !isWhitespace c

namespace MailParts

def entities : MailParts → List Bytes
  | done => []
  | text fields kind encoding _ body rest =>
    entity (fields.around [contentTypeField kind.contentType, transferEncodingField encoding])
      (utf8 body) :: rest.entities
  | other fields contentType body rest =>
    entity (fields.around [contentTypeField contentType]) body :: rest.entities
  | nested fields subtype boundary inner rest =>
    entity (fields.around [contentTypeField (multipartType subtype boundary)])
      (multipart boundary inner.entities) :: rest.entities

/-- How deep parts are nested. -/
def depth : MailParts → ℕ
  | done => 0
  | text _ _ _ _ _ rest => max 1 rest.depth
  | other _ _ _ rest => max 1 rest.depth
  | nested _ _ _ inner rest => max (inner.depth + 1) rest.depth

def texts : MailParts → List (TextKind × Text)
  | done => []
  | text _ kind _ content _ rest => (kind, content) :: rest.texts
  | other _ _ _ rest => rest.texts
  | nested _ _ _ inner rest => inner.texts ++ rest.texts

end MailParts

def NoDelimiterLine (boundary : Text) (entities : List Bytes) : Prop :=
  ∀ entity ∈ entities, ∀ line ∈ entity.splitOn 10, ¬ utf8 (delimiter boundary) <+: line

/-- The delimiter occurs nowhere in an entity. -/
def NoDelimiterInside (boundary : Text) (entities : List Bytes) : Prop :=
  ∀ entity ∈ entities, ¬ utf8 (delimiter boundary) <:+: entity

namespace MailParts

/-- Parts as the standard has them. -/
def WellFormed : MailParts → Prop
  | done => True
  | text fields _ encoding content body rest =>
    fields.Valid ["content-type", "content-transfer-encoding"] ∧
      encoding.Encodes content body ∧ rest.WellFormed
  | other fields contentType _ rest =>
    fields.Valid ["content-type"] ∧ IsLine contentType ∧ (¬ "multipart/" <+: mediaType contentType ∧
        mediaType contentType ≠ "text/plain" ∧
        mediaType contentType ≠ "text/html") ∧ rest.WellFormed
  | nested fields subtype boundary inner rest =>
    fields.Valid ["content-type"] ∧ IsToken subtype ∧ IsBoundary boundary ∧
      NoDelimiterLine boundary inner.entities ∧ inner.WellFormed ∧ rest.WellFormed

/-- Parts that the parser reads as they are meant. -/
def Plain : MailParts → Prop
  | done => True
  | text _ _ encoding _ body rest => ¬ encoding.EndsSoft body ∧ rest.Plain
  | other _ contentType _ rest =>
    ¬ "text/plain" <+: mediaType contentType ∧ ¬ "text/html" <+: mediaType contentType ∧ rest.Plain
  | nested _ _ boundary inner rest =>
    IsLowercase boundary ∧ NoDelimiterInside boundary inner.entities ∧ inner.Plain ∧ rest.Plain

end MailParts

structure MultipartMail where
  fields : PartFields
  subtype : Text
  boundary : Text
  parts : MailParts

/-- Non-empty texts joined with a newline, absent if there is none. -/
def newlineJoined (texts : List Text) : Option Text :=
  match texts.filter (· ≠ []) with
  | [] => none
  | kept => some ("\n".toList.intercalate kept)

namespace MultipartMail

def render (mail : MultipartMail) : Bytes :=
  entity (mail.fields.around [contentTypeField (multipartType mail.subtype mail.boundary)])
    (multipart mail.boundary mail.parts.entities ++ [13, 10])

/-- A mail as the standard has it. -/
def WellFormed (mail : MultipartMail) : Prop :=
  mail.fields.Valid ["content-type"] ∧ IsToken mail.subtype ∧ IsBoundary mail.boundary ∧
    NoDelimiterLine mail.boundary mail.parts.entities ∧ mail.parts.WellFormed

/-- A mail that the parser reads as it is meant: no boundary has an upper-case letter, no delimiter
occurs inside a part, no part of another type is named like a text, and no quoted-printable text
ends with a soft line break. -/
def Plain (mail : MultipartMail) : Prop :=
  IsLowercase mail.boundary ∧ NoDelimiterInside mail.boundary mail.parts.entities ∧ mail.parts.Plain

def text (mail : MultipartMail) (kind : TextKind) : Option Text :=
  newlineJoined (((mail.parts.texts.filter fun text ↦ text.1 = kind).map Prod.snd).map trim)

/-- The parser finds the texts of a mail. -/
def IsRecovered (mail : MultipartMail) (maxBytes : ℕ) : Prop :=
  ∃ parsed, parseMime mail.render maxBytes = .ok parsed ∧
    parsed.textPlain = mail.text .plain ∧ parsed.textHtml = mail.text .html

end MultipartMail

/-! ### Texts -/

def ParsedMail.text (parsed : ParsedMail) : TextKind → Option Text
  | .plain => parsed.textPlain
  | .html => parsed.textHtml

/-- A text that is read is kept unless it is empty. -/
def appendKept (existing : Option Text) (text : Text) : Option Text :=
  if text = [] then existing else appendText existing text

def ParsedMail.addText (parsed : ParsedMail) (kind : TextKind) (text : Text) : ParsedMail :=
  match kind with
  | .plain => { parsed with textPlain := appendKept parsed.textPlain text }
  | .html => { parsed with textHtml := appendKept parsed.textHtml text }

def ParsedMail.addTexts (parsed : ParsedMail) (texts : List (TextKind × Text)) : ParsedMail :=
  texts.foldl (fun parsed text ↦ parsed.addText text.1 (trim text.2)) parsed

theorem ParsedMail.text_addTexts (texts : List (TextKind × Text)) (parsed : ParsedMail)
    (kind : TextKind) : (parsed.addTexts texts).text kind =
      (((texts.filter fun text ↦ text.1 = kind).map Prod.snd).map trim).foldl appendKept
        (parsed.text kind) := by
  induction texts generalizing parsed with
  | nil => rfl
  | cons text rest ih =>
    obtain ⟨other, content⟩ := text
    have hstep : (parsed.addTexts ((other, content) :: rest)) =
        (parsed.addText other (trim content)).addTexts rest := rfl
    rw [hstep, ih]
    by_cases hkind : other = kind
    · subst hkind
      rw [filter_cons_of_pos (by simp), map_cons, map_cons, foldl_cons]
      cases other with
      | plain => rfl
      | html => rfl
    · rw [filter_cons_of_neg (by simpa using hkind)]
      have hsame : (parsed.addText other (trim content)).text kind = parsed.text kind := by
        cases other with
        | plain =>
          cases kind with
          | plain => exact absurd rfl hkind
          | html => rfl
        | html =>
          cases kind with
          | plain => rfl
          | html => exact absurd rfl hkind
      rw [hsame]

theorem foldl_appendKept (texts : List Text) :
    texts.foldl appendKept none = newlineJoined texts := by
  have hsome (texts : List Text) (existing : Text) :
      texts.foldl appendText (some existing) = some (existing ++ texts.flatMap ('\n' :: ·)) := by
    induction texts generalizing existing with
    | nil => rw [flatMap_nil, append_nil, foldl_nil]
    | cons text rest ih =>
      rw [foldl_cons, appendText, ih, flatMap_cons, append_assoc]
  have hjoined (first : Text) (rest : List Text) :
      "\n".toList.intercalate (first :: rest) = first ++ rest.flatMap ('\n' :: ·) := by
    induction rest generalizing first with
    | nil => rw [intercalate_singleton, flatMap_nil, append_nil]
    | cons second others ih =>
      rw [intercalate_cons_cons, ih, flatMap_cons, append_assoc]
      rfl
  have hfilter : texts.foldl appendKept none = (texts.filter (· ≠ [])).foldl appendText none := by
    rw [foldl_filter]
    congr 1
    funext existing text
    by_cases hempty : text = []
    · simp [appendKept, hempty]
    · simp [appendKept, hempty]
  rw [hfilter, newlineJoined]
  cases texts.filter (· ≠ []) with
  | nil => rfl
  | cons first rest =>
    rw [foldl_cons, appendText, hsome]
    dsimp only
    rw [hjoined]

/-! ### The headers of parts -/

theorem key_contentTypeField (value : Text) :
    (contentTypeField value).key = "content-type" := by
  have hname : toAsciiLowercase "Content-Type" = "content-type" := by decide
  exact hname

theorem key_transferEncodingField (encoding : TransferEncoding) :
    (transferEncodingField encoding).key = "content-transfer-encoding" := by
  have hname : toAsciiLowercase "Content-Transfer-Encoding" =
      "content-transfer-encoding" := by decide
  exact hname

theorem visible_names {c : Char}
    (h : c ∈ "Content-Type".toList ∨ c ∈ "Content-Transfer-Encoding".toList) :
    33 ≤ c.toNat ∧ c.toNat ≤ 126 ∧ c ≠ ':' := by
  have hall : ∀ c ∈ "Content-Type".toList ++ "Content-Transfer-Encoding".toList,
      33 ≤ c.toNat ∧ c.toNat ≤ 126 ∧ c ≠ ':' := forall_mem_of_all (by decide)
  exact hall c (mem_append.mpr h)

theorem valid_contentTypeField {value : Text} (h : IsLine value) :
    (contentTypeField value).Valid where
  name_ne := cons_ne_nil _ _
  name_visible := fun _ hc ↦ visible_names (.inl hc)
  value_line := h
  folded_lines := fun _ hline ↦ absurd hline not_mem_nil

theorem valid_transferEncodingField (encoding : TransferEncoding) :
    (transferEncodingField encoding).Valid where
  name_ne := cons_ne_nil _ _
  name_visible := fun _ hc ↦ visible_names (.inr hc)
  value_line := by
    cases encoding with
    | identity => exact ⟨by decide, by decide⟩
    | base64 => exact ⟨by decide, by decide⟩
    | quotedPrintable => exact ⟨by decide, by decide⟩
  folded_lines := fun _ hline ↦ absurd hline not_mem_nil

namespace PartFields

variable {fields : PartFields} {reserved : List Text}

theorem Valid.around (h : fields.Valid reserved) {own : List HeaderField}
    (hown : ∀ field ∈ own, field.Valid) : ∀ field ∈ fields.around own, field.Valid := by
  intro field hfield
  rcases mem_append.mp hfield with hfield | hfield
  · rcases mem_append.mp hfield with hfield | hfield
    · exact (h field (mem_append_left _ hfield)).1
    · exact hown field hfield
  · exact (h field (mem_append_right _ hfield)).1

theorem around_ne_nil (fields : PartFields) {own : List HeaderField} (h : own ≠ []) :
    fields.around own ≠ [] := by
  intro hnil
  exact h (append_eq_nil_iff.mp (append_eq_nil_iff.mp hnil).1).2

theorem Valid.lookup (h : fields.Valid reserved) {before after : List HeaderField}
    {field : HeaderField} (hreserved : field.key ∈ reserved)
    (hafter : ∀ other ∈ after, other.key ≠ field.key) :
    fieldMap (fields.around (before ++ field :: after)) field.key = some (trim field.unfolded) := by
  have hsplit : fields.around (before ++ field :: after) =
      (fields.leading ++ before) ++ field :: (after ++ fields.trailing) := by
    rw [PartFields.around]
    simp only [append_assoc, cons_append]
  rw [hsplit]
  refine fieldMap_of_last fun other hother ↦ ?_
  rcases mem_append.mp hother with hother | hother
  · exact hafter other hother
  · intro hkey
    exact (h other (mem_append_right _ hother)).2 (hkey ▸ hreserved)

theorem Valid.contentType (h : fields.Valid reserved) (hreserved : "content-type".toList ∈ reserved)
    (value : Text) : fieldMap (fields.around [contentTypeField value]) "content-type" =
      some (trim value) := by
  have hkey := key_contentTypeField value
  have hlookup : fieldMap (fields.around ([] ++ [contentTypeField value]))
      (contentTypeField value).key = some (trim (contentTypeField value).unfolded) :=
    h.lookup (hkey.symm ▸ hreserved) fun _ hother ↦ absurd hother not_mem_nil
  rw [hkey] at hlookup
  exact hlookup.trans (congrArg some (trim_trim value))

theorem Valid.textHeaders
    (h : fields.Valid ["content-type", "content-transfer-encoding"])
    (kind : TextKind) (encoding : TransferEncoding) :
    (∀ field ∈ fields.around [contentTypeField kind.contentType, transferEncodingField encoding],
      field.Valid) ∧
    fieldMap (fields.around [contentTypeField kind.contentType, transferEncodingField encoding])
      "content-type" = some kind.contentType ∧
    fieldMap (fields.around [contentTypeField kind.contentType, transferEncodingField encoding])
      "content-transfer-encoding" = some encoding.token := by
  have htypeKey := key_contentTypeField kind.contentType
  have hencodingKey := key_transferEncodingField encoding
  have htype : fieldMap (fields.around
      ([] ++ contentTypeField kind.contentType :: [transferEncodingField encoding]))
        (contentTypeField kind.contentType).key =
          some (trim (contentTypeField kind.contentType).unfolded) := by
    refine h.lookup (htypeKey ▸ mem_cons_self) (forall_mem_singleton.mpr ?_)
    rw [htypeKey, hencodingKey]
    decide
  have hencoding : fieldMap (fields.around
      ([contentTypeField kind.contentType] ++ transferEncodingField encoding :: []))
        (transferEncodingField encoding).key =
          some (trim (transferEncodingField encoding).unfolded) :=
    h.lookup (hencodingKey ▸ mem_cons_of_mem _ mem_cons_self)
      fun _ hother ↦ absurd hother not_mem_nil
  have hline : IsLine kind.contentType ∧ trim (trim kind.contentType) = kind.contentType := by
    cases kind with
    | plain | html => exact ⟨⟨by decide, by decide⟩, by decide⟩
  have htoken : trim (trim encoding.token) = encoding.token := by
    cases encoding with
    | identity => rfl
    | base64 => rfl
    | quotedPrintable => rfl
  rw [htypeKey] at htype
  rw [hencodingKey] at hencoding
  exact ⟨h.around (forall_mem_cons.mpr ⟨valid_contentTypeField hline.1,
      forall_mem_singleton.mpr (valid_transferEncodingField encoding)⟩),
    htype.trans (congrArg some hline.2), hencoding.trans (congrArg some htoken)⟩

end PartFields

/-! ### The reading of parts -/

variable {headers : HeaderMap} {boundary : Text}

theorem parsePart_text {kind : TextKind} {encoding : TransferEncoding} {content body : Text}
    (hcontent : encoding.Encodes content body) (hend : ¬ encoding.EndsSoft body)
    (htype : headers "content-type" = some kind.contentType)
    (hencoding : headers "content-transfer-encoding" = some encoding.token) (levels : ℕ)
    (parsed : ParsedMail) :
    parsePart (levels + 1) headers (utf8 (body.rdropWhile isLineEnd)) parsed =
      .ok (parsed.addText kind (trim content)) := by
  obtain ⟨decoded, hdecoded, htrim⟩ := hcontent.decodes hend
  have hkinds : toAsciiLowercase kind.contentType = kind.contentType ∧
      "multipart/".toList.isPrefixOf kind.contentType = false ∧
      ("text/plain".toList.isPrefixOf kind.contentType = true ↔ kind = .plain) ∧
      ("text/html".toList.isPrefixOf kind.contentType = true ↔ kind = .html) := by
    cases kind with
    | plain => decide
    | html => decide
  obtain ⟨hlower, hmultipart, hplain, hhtml⟩ := hkinds
  have hknown : ¬ (¬ "text/plain".toList.isPrefixOf kind.contentType = true ∧
      ¬ "text/html".toList.isPrefixOf kind.contentType = true) := by
    rw [hplain, hhtml]
    cases kind with
    | plain => exact fun h ↦ h.1 rfl
    | html => exact fun h ↦ h.2 rfl
  simp only [parsePart, htype, Option.map_some, Option.getD_some, hlower]
  rw [if_neg (by rw [hmultipart]; exact Bool.false_ne_true), if_neg hknown, hencoding, hdecoded,
    ok_bind, htrim]
  by_cases hempty : trim content = []
  · rw [if_pos hempty, hempty]
    cases kind with
    | plain => rfl
    | html => rfl
  · rw [if_neg hempty]
    cases kind with
    | plain =>
      rw [if_neg fun h ↦ absurd (hhtml.mp h) (by decide), ParsedMail.addText, appendKept,
        if_neg hempty]
      rfl
    | html =>
      rw [if_pos (hhtml.mpr rfl), ParsedMail.addText, appendKept, if_neg hempty]
      rfl

theorem trim_of_empty {encoding : TransferEncoding} {content body : Text}
    (hcontent : encoding.Encodes content body) (hend : ¬ encoding.EndsSoft body)
    (hbody : body.rdropWhile isLineEnd = []) : trim content = [] := by
  obtain ⟨decoded, hdecoded, htrim⟩ := hcontent.decodes hend
  have hempty : decodeTransferEncoding [] (some encoding.token) = .ok [] := by
    cases encoding with
    | identity => rfl
    | base64 => rfl
    | quotedPrintable => rfl
  rw [hbody, utf8_nil, hempty] at hdecoded
  obtain rfl : [] = decoded := Except.ok.inj hdecoded
  exact htrim.symm

theorem prefix_mediaType {start contentType : Text}
    (hstart : ∀ c ∈ start, (c != ';' && !isWhitespace c) = true)
    (h : start.isPrefixOf (toAsciiLowercase (trim contentType)) = true) :
    start <+: mediaType contentType := by
  obtain ⟨rest, hrest⟩ := isPrefixOf_iff_prefix.mp h
  rw [mediaType, ← hrest, takeWhile_append_of_pos hstart]
  exact prefix_append _ _

theorem parsePart_other {contentType : Text}
    (hmultipart : ¬ "multipart/" <+: mediaType contentType)
    (hplain : ¬ "text/plain" <+: mediaType contentType)
    (hhtml : ¬ "text/html" <+: mediaType contentType)
    (htype : headers "content-type" = some (trim contentType)) (levels : ℕ) (body : Bytes)
    (parsed : ParsedMail) : parsePart (levels + 1) headers body parsed = .ok parsed := by
  simp only [parsePart, htype, Option.map_some, Option.getD_some]
  rw [if_neg fun h ↦ hmultipart (prefix_mediaType (forall_mem_of_all (by decide)) h),
    if_pos ⟨fun h ↦ hplain (prefix_mediaType (forall_mem_of_all (by decide)) h),
      fun h ↦ hhtml (prefix_mediaType (forall_mem_of_all (by decide)) h)⟩]

theorem parsePart_multipart {subtype : Text} (hsubtype : IsToken subtype)
    (hboundary : IsBoundary boundary) (hlowercase : IsLowercase boundary) {entities : List Bytes}
    (hinside : NoDelimiterInside boundary entities) (hstart : ∀ entity ∈ entities, ∃ c rest,
      fromUtf8Lossy entity = c :: rest ∧ ¬ isLineEnd c = true) {tail : Bytes}
    (htail : ¬ delimiter boundary <:+: "--" ++ fromUtf8Lossy tail)
    (htype : headers "content-type" = some (multipartType subtype boundary)) {body : Bytes}
    (hbody : fromUtf8Lossy body = fromUtf8Lossy (multipart boundary entities ++ tail)) (levels : ℕ)
    (parsed : ParsedMail) :
    parsePart (levels + 1) headers body parsed =
      (entities.map fun entity ↦ utf8 (withoutLineEnds entity)).foldlM
        (receivePart (parsePart levels)) parsed := by
  have hmultipart : "multipart/".toList.isPrefixOf
      (toAsciiLowercase (multipartType subtype boundary)) = true := by
    rw [toAsciiLowercase_multipartType, append_assoc, isPrefixOf_iff_prefix]
    exact prefix_append _ _
  have hparts : splitMultipart body boundary =
      entities.map fun entity ↦ utf8 (withoutLineEnds entity) := by
    rw [← splitMultipart_multipart hboundary (fun entity hentity hpart ↦ hinside entity hentity
      (infix_of_infix_fromUtf8Lossy hboundary.delimiter_ascii hpart)) hstart htail]
    simp only [splitMultipart, hbody]
  have hparameter := parameter_boundary hsubtype hboundary
  rw [toAsciiLowercase_of_isLowercase hlowercase] at hparameter
  simp only [parsePart, htype, Option.map_some, Option.getD_some]
  rw [if_pos hmultipart, hparameter, orThrow, ok_bind, hparts]

/-! ### The reading of a multipart body -/

theorem isLine_multipartType {subtype : Text} (hsubtype : IsToken subtype)
    (hboundary : IsBoundary boundary) :
    IsLine (multipartType subtype boundary) ∧
      trim (multipartType subtype boundary) = multipartType subtype boundary := by
  have hnotMem {c : Char} (hlow : c.toNat < 33) (hliteral : c ∉ "multipart/".toList ∧
      c ∉ "; boundary=\"".toList ∧ c ∉ ['"']) (hc : c ∉ boundary) :
      c ∉ multipartType subtype boundary := by
    have htoken : c ∉ subtype := fun hmem ↦ by
      have hvisible := (hsubtype.2 c hmem).1
      omega
    unfold multipartType
    simp only [mem_append, not_or]
    exact ⟨⟨⟨⟨hliteral.1, htoken⟩, hliteral.2.1⟩, hc⟩, hliteral.2.2⟩
  refine ⟨⟨hnotMem (by decide) (by decide) fun hc ↦ (hboundary.chars _ hc).facts.2.1 rfl,
    hnotMem (by decide) (by decide) fun hc ↦ (hboundary.chars _ hc).facts.2.2.1 rfl⟩, ?_⟩
  refine trim_of_ends (fun c hc ↦ ?_) fun c hc ↦ ?_
  · obtain rfl : 'm' = c := Option.some.inj hc
    rfl
  · unfold multipartType at hc
    rw [List.getLast?_concat] at hc
    obtain rfl : '"' = c := Option.some.inj hc
    rfl

theorem not_infix_end (hboundary : IsBoundary boundary) {tail : Bytes}
    (htail : tail = [] ∨ tail = [13, 10]) :
    ¬ delimiter boundary <:+: "--" ++ fromUtf8Lossy tail := by
  have hlong := hboundary.length_delimiter
  have hshort {items : Text} (hlength : items.length ≤ 2) : ¬ delimiter boundary <:+: items :=
    fun hpart ↦ by
      have hle := hpart.length_le
      omega
  rcases htail with rfl | rfl
  · exact hshort le_rfl
  · intro hpart
    have hend : "--" ++ fromUtf8Lossy [13, 10] = ['-', '-'] ++ '\r' :: ['\n'] := rfl
    rw [hend] at hpart
    rcases infix_append_cons hboundary.lineEnd_notMem.2 hpart with hpart | hpart
    · exact hshort le_rfl hpart
    · exact hshort (by decide) hpart

theorem withoutLineEnds_multipart (boundary : Text) (entities : List Bytes) :
    withoutLineEnds (multipart boundary entities) = fromUtf8Lossy (multipart boundary entities) ∧
      withoutLineEnds (multipart boundary entities) ≠ [] := by
  have hread := fromUtf8Lossy_multipart boundary entities []
  have hnil : fromUtf8Lossy [] = [] := rfl
  rw [append_nil, hnil, append_nil, ← append_assoc] at hread
  have hsame : withoutLineEnds (multipart boundary entities) =
      fromUtf8Lossy (multipart boundary entities) := by
    rw [withoutLineEnds, hread, rdropWhile_append]
    exact if_neg (by decide)
  refine ⟨hsame, ?_⟩
  rw [hsame, hread]
  exact append_ne_nil_of_right_ne_nil _ (by decide)

namespace MailParts

theorem WellFormed.entity_starts {parts : MailParts} (h : parts.WellFormed) :
    ∀ entity ∈ parts.entities, ∃ c rest,
      fromUtf8Lossy entity = c :: rest ∧ ¬ isLineEnd c = true := by
  induction parts with
  | done => exact fun _ hentity ↦ absurd hentity not_mem_nil
  | text fields kind encoding content body rest ih =>
    exact forall_mem_cons.mpr ⟨entity_start (h.1.textHeaders kind encoding).1
      (fields.around_ne_nil (cons_ne_nil _ _)) _, ih h.2.2⟩
  | other fields contentType body rest ih =>
    exact forall_mem_cons.mpr ⟨entity_start (h.1.around
      (forall_mem_singleton.mpr (valid_contentTypeField h.2.1)))
      (fields.around_ne_nil (cons_ne_nil _ _)) _, ih h.2.2.2⟩
  | nested fields subtype boundary inner rest _ ih =>
    obtain ⟨hfields, hsubtype, hboundary, -, -, hrest⟩ := h
    exact forall_mem_cons.mpr ⟨entity_start (hfields.around
      (forall_mem_singleton.mpr
        (valid_contentTypeField (isLine_multipartType hsubtype hboundary).1)))
      (fields.around_ne_nil (cons_ne_nil _ _)) _, ih hrest⟩

theorem WellFormed.received {parts : MailParts} (h : parts.WellFormed) (hplain : parts.Plain)
    {levels : ℕ} (hdepth : parts.depth ≤ levels) (parsed : ParsedMail) :
    (parts.entities.map fun entity ↦ utf8 (withoutLineEnds entity)).foldlM
      (receivePart (parsePart levels)) parsed = .ok (parsed.addTexts parts.texts) := by
  induction parts generalizing levels parsed with
  | done => rfl
  | text fields kind encoding content body rest ih =>
    obtain ⟨hfields, hcontent, hrest⟩ := h
    obtain ⟨hend, hplain⟩ := hplain
    obtain ⟨hlevels, hdepth⟩ := max_le_iff.mp hdepth
    obtain ⟨lower, rfl⟩ : ∃ lower, levels = lower + 1 := ⟨levels - 1, by omega⟩
    obtain ⟨hvalid, htype, hencoding⟩ := hfields.textHeaders kind encoding
    have hbody : withoutLineEnds (utf8 body) = body.rdropWhile isLineEnd := by
      rw [withoutLineEnds, fromUtf8Lossy_utf8]
    have hstep : receivePart (parsePart (lower + 1)) parsed (utf8 (withoutLineEnds (entity
        (fields.around [contentTypeField kind.contentType, transferEncodingField encoding])
          (utf8 body)))) = .ok (parsed.addText kind (trim content)) := by
      rw [receivePart_entity hvalid (fields.around_ne_nil (cons_ne_nil _ _)), hbody]
      by_cases hempty : body.rdropWhile isLineEnd = []
      · rw [if_pos hempty, trim_of_empty hcontent hend hempty]
        cases kind with
        | plain => rfl
        | html => rfl
      · rw [if_neg hempty]
        exact parsePart_text hcontent hend htype hencoding lower parsed
    rw [entities, map_cons, foldlM_cons, hstep, ok_bind, ih hrest hplain hdepth]
    rfl
  | other fields contentType body rest ih =>
    obtain ⟨hfields, hline, ⟨hmultipart, -⟩, hrest⟩ := h
    obtain ⟨htext, hhtml, hplain⟩ := hplain
    obtain ⟨hlevels, hdepth⟩ := max_le_iff.mp hdepth
    obtain ⟨lower, rfl⟩ : ∃ lower, levels = lower + 1 := ⟨levels - 1, by omega⟩
    have hstep : receivePart (parsePart (lower + 1)) parsed (utf8 (withoutLineEnds (entity
        (fields.around [contentTypeField contentType]) body))) = .ok parsed := by
      rw [receivePart_entity (hfields.around
        (forall_mem_singleton.mpr (valid_contentTypeField hline)))
        (fields.around_ne_nil (cons_ne_nil _ _)),
        parsePart_other hmultipart htext hhtml
          (hfields.contentType (mem_singleton.mpr rfl) contentType), ite_self]
    rw [entities, map_cons, foldlM_cons, hstep, ok_bind, ih hrest hplain hdepth]
    rfl
  | nested fields subtype boundary inner rest ihInner ih =>
    obtain ⟨hfields, hsubtype, hboundary, -, hinner, hrest⟩ := h
    obtain ⟨hlowercase, hinside, hplainInner, hplain⟩ := hplain
    obtain ⟨hlevels, hdepth⟩ := max_le_iff.mp hdepth
    obtain ⟨lower, rfl⟩ : ∃ lower, levels = lower + 1 := ⟨levels - 1, by omega⟩
    obtain ⟨hline, htrim⟩ := isLine_multipartType hsubtype hboundary
    obtain ⟨hsame, hne⟩ := withoutLineEnds_multipart boundary inner.entities
    have htype := hfields.contentType (mem_singleton.mpr rfl) (multipartType subtype boundary)
    rw [htrim] at htype
    have hread : fromUtf8Lossy (utf8 (withoutLineEnds (multipart boundary inner.entities))) =
        fromUtf8Lossy (multipart boundary inner.entities ++ []) := by
      rw [fromUtf8Lossy_utf8, hsame, append_nil]
    have hstep : receivePart (parsePart (lower + 1)) parsed (utf8 (withoutLineEnds (entity
        (fields.around [contentTypeField (multipartType subtype boundary)])
          (multipart boundary inner.entities)))) = .ok (parsed.addTexts inner.texts) := by
      rw [receivePart_entity (hfields.around
        (forall_mem_singleton.mpr (valid_contentTypeField hline)))
        (fields.around_ne_nil (cons_ne_nil _ _)), if_neg hne,
        parsePart_multipart hsubtype hboundary hlowercase hinside hinner.entity_starts
          (not_infix_end hboundary (.inl rfl)) htype hread,
        ihInner hinner hplainInner (Nat.le_of_succ_le_succ hlevels)]
    rw [entities, map_cons, foldlM_cons, hstep, ok_bind, ih hrest hplain hdepth, texts,
      ParsedMail.addTexts, ParsedMail.addTexts, ParsedMail.addTexts, foldl_append]

end MailParts

/-! ### The recovery -/

theorem exists_decodedHeader (value : Option Text) :
    ∃ decoded, value.mapM decodedHeader = .ok decoded := by
  cases value with
  | none => exact ⟨none, rfl⟩
  | some value =>
    obtain ⟨text, htext⟩ := exists_decodeHeaderValue value
    refine ⟨some text, ?_⟩
    rw [Option.mapM_some, decodedHeader, htext]
    rfl

def greeting (boundary : Text) : MultipartMail where
  fields := ⟨[], []⟩
  subtype := "mixed"
  boundary
  parts := .text ⟨[], []⟩ .plain .identity "hi" "hi" .done

theorem wellFormed_greeting (hboundary : IsBoundary boundary)
    (hlines : NoDelimiterLine boundary (greeting boundary).parts.entities) :
    (greeting boundary).WellFormed := by
  have hnone (reserved : List Text) : PartFields.Valid ⟨[], []⟩ reserved :=
    fun _ hfield ↦ absurd hfield not_mem_nil
  have hsubtype : IsToken "mixed" :=
    ⟨cons_ne_nil _ _, forall_mem_of_all (by decide)⟩
  exact ⟨hnone _, hsubtype, hboundary, hlines, hnone _, rfl, trivial⟩

end GameLauncher.Provisioning
