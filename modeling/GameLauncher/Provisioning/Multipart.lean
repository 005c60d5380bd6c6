import GameLauncher.Provisioning.MailHeaders
import GameLauncher.Provisioning.TransferEncodings

/-!
# Multipart bodies

An entity is a block of header fields, an empty line and a body. A multipart body sets delimiters
before, between and after its entities. `splitMultipart_multipart` says that the parser finds the
entities again, each without the line ends at its end, when the delimiter occurs inside none of
them; `parameter_boundary` that it reads the boundary in lower case.
-/

set_option autoImplicit false

namespace GameLauncher.Provisioning

open Foundation Fallible List

/-! ### Boundaries -/

variable {c : Char} {boundary : Text}

def IsBoundaryChar (c : Char) : Prop := c.isAlphanum = true ∨ c ∈ "'()+_,-./:=? ".toList

instance (c : Char) : Decidable (IsBoundaryChar c) :=
  inferInstanceAs (Decidable (c.isAlphanum = true ∨ c ∈ "'()+_,-./:=? ".toList))

/-- A boundary that the standard allows. -/
structure IsBoundary (boundary : Text) : Prop where
  ne_nil : boundary ≠ []
  length_le : boundary.length ≤ 70
  chars : ∀ c ∈ boundary, IsBoundaryChar c
  last : boundary.getLast? ≠ some ' '

/-- A token, such as the name of a subtype. -/
def IsToken (text : Text) : Prop :=
  text ≠ [] ∧ ∀ c ∈ text, 33 ≤ c.toNat ∧ c.toNat ≤ 126 ∧ c ∉ "()<>@,;:\\\"/[]?=".toList

/-- A text without an upper-case letter. -/
def IsLowercase (text : Text) : Prop := ∀ c ∈ text, ¬ (65 ≤ c.toNat ∧ c.toNat ≤ 90)

/-- What a line that divides a multipart body begins with. -/
def delimiter (boundary : Text) : Text := "--" ++ boundary

theorem IsBoundaryChar.facts (h : IsBoundaryChar c) :
    IsAscii c ∧ c ≠ '\n' ∧ c ≠ '\r' ∧ c ≠ ';' ∧ c ≠ '"' := by
  refine ⟨?_, ?_, ?_, ?_, ?_⟩
  · rcases h with halphanum | hmem
    · have hcode := code_of_isAlphanum halphanum
      unfold IsAscii
      omega
    · have hall : ∀ c ∈ "'()+_,-./:=? ".toList, IsAscii c := forall_mem_of_all (by decide)
      exact hall c hmem
  all_goals
    rintro rfl
    exact absurd h (by decide)

theorem IsBoundary.delimiter_chars (h : IsBoundary boundary) (hc : c ∈ delimiter boundary) :
    IsBoundaryChar c := by
  rcases mem_append.mp hc with hdashes | hboundary
  · have hall : ∀ c ∈ "--".toList, IsBoundaryChar c := forall_mem_of_all (by decide)
    exact hall c hdashes
  · exact h.chars c hboundary

theorem IsBoundary.delimiter_ascii (h : IsBoundary boundary) :
    ∀ c ∈ delimiter boundary, IsAscii c :=
  fun _ hc ↦ (h.delimiter_chars hc).facts.1

theorem IsBoundary.lineEnd_notMem (h : IsBoundary boundary) :
    '\n' ∉ delimiter boundary ∧ '\r' ∉ delimiter boundary :=
  ⟨fun hc ↦ (h.delimiter_chars hc).facts.2.1 rfl, fun hc ↦ (h.delimiter_chars hc).facts.2.2.1 rfl⟩

theorem delimiter_ne_nil (boundary : Text) : delimiter boundary ≠ [] := cons_ne_nil _ _

theorem IsBoundary.length_delimiter (h : IsBoundary boundary) :
    2 < (delimiter boundary).length := by
  have hlength := length_pos_iff.mpr h.ne_nil
  have hdashes : "--".toList.length = 2 := rfl
  rw [delimiter, length_append]
  omega

/-! ### The boundary in a content type -/

/-- The content type of a multipart entity. -/
def multipartType (subtype boundary : Text) : Text :=
  "multipart/" ++ subtype ++ "; boundary=\"" ++ boundary ++ ['"']

theorem eq_of_lowerChar_eq {d : Char} (hd : ¬ (97 ≤ d.toNat ∧ d.toNat ≤ 122)) (h : lowerChar c = d)
    : c = d := by
  have hcode := congrArg Char.toNat h
  rw [toNat_lowerChar] at hcode
  split_ifs at hcode
  · omega
  · exact Char.toNat_inj.mp hcode

theorem notMem_toAsciiLowercase {text : Text} (hletter : ¬ (97 ≤ c.toNat ∧ c.toNat ≤ 122))
    (h : c ∉ text) : c ∉ toAsciiLowercase text := by
  intro hmem
  obtain ⟨other, hother, hlower⟩ := mem_map.mp hmem
  exact h (eq_of_lowerChar_eq hletter hlower ▸ hother)

theorem toAsciiLowercase_of_isLowercase {text : Text} (h : IsLowercase text) :
    toAsciiLowercase text = text :=
  (map_congr_left fun c hc ↦ if_neg (h c hc)).trans (map_id text)

theorem parameter_quoted {front value : Text} (hfront : ';' ∉ front) (hvalue : ';' ∉ value)
    (hquote : '"' ∉ value) (hne : value ≠ []) :
    parameter (front ++ ';' :: ' ' :: ("boundary=\"".toList ++ value ++ ['"']))
      "boundary".toList = some value := by
  have hpieces : (front ++ ';' :: ' ' :: ("boundary=\"".toList ++ value ++ ['"'])).splitOn ';' =
      [front, ' ' :: ("boundary=\"".toList ++ value ++ ['"'])] := by
    have hsecond : ';' ∉ ' ' :: ("boundary=\"".toList ++ value ++ ['"']) := by
      simp only [mem_cons, mem_append, not_or]
      exact ⟨by decide, ⟨by decide, hvalue⟩, by decide⟩
    rw [splitOn_append_cons_self_of_not_mem hfront, splitOn_eq_singleton hsecond]
  have htrim : trim (' ' :: ("boundary=\"".toList ++ value ++ ['"'])) =
      "boundary=\"".toList ++ value ++ ['"'] := by
    rw [trim_space_cons]
    refine trim_of_ends (fun c hc ↦ ?_) fun c hc ↦ ?_
    · obtain rfl : 'b' = c := Option.some.inj hc
      rfl
    · rw [List.getLast?_concat] at hc
      obtain rfl : '"' = c := Option.some.inj hc
      rfl
  have honce : splitOnce '=' ("boundary=\"".toList ++ value ++ ['"']) =
      some ("boundary".toList, '"' :: (value ++ ['"'])) := by
    have hkey : '=' ∉ "boundary".toList := by decide
    exact splitOnce_append ('"' :: (value ++ ['"'])) hkey
  have hkept : trim ('"' :: (value ++ ['"'])) = '"' :: (value ++ ['"']) := by
    refine trim_of_ends (fun c hc ↦ ?_) fun c hc ↦ ?_
    · obtain rfl : '"' = c := Option.some.inj hc
      rfl
    · rw [← cons_append, List.getLast?_concat] at hc
      obtain rfl : '"' = c := Option.some.inj hc
      rfl
  have hquotes :
      (('"' :: (value ++ ['"'])).dropWhile (· == '"')).rdropWhile (· == '"') = value := by
    obtain ⟨first, rest, rfl⟩ := exists_cons_of_ne_nil hne
    have hfirst : ¬ (first == '"') = true := fun h ↦ by
      rw [beq_iff_eq] at h
      exact hquote (h ▸ mem_cons_self)
    have hdrop : ('"' :: (first :: rest ++ ['"'])).dropWhile (· == '"') = first :: rest ++ ['"'] :=
      (dropWhile_cons_of_pos rfl).trans (dropWhile_cons_of_neg hfirst)
    have hlast : (first :: rest ++ ['"']).rdropWhile (· == '"') =
        (first :: rest).rdropWhile (· == '"') := rdropWhile_concat_pos _ _ _ rfl
    rw [hdrop, hlast, rdropWhile_eq_self_iff]
    intro hne hlast
    rw [beq_iff_eq] at hlast
    exact hquote (hlast ▸ getLast_mem hne)
  have hkey : eqIgnoreAsciiCase (trim "boundary".toList) "boundary".toList = true := by
    decide
  rw [parameter, hpieces]
  simp only [drop_one, tail_cons, List.findSome?_cons, htrim, honce, Option.bind_some,
    hkept, hquotes, hkey, if_true]

theorem toAsciiLowercase_multipartType (subtype boundary : Text) :
    toAsciiLowercase (multipartType subtype boundary) = "multipart/" ++ toAsciiLowercase subtype ++
        ';' :: ' ' :: ("boundary=\"" ++ toAsciiLowercase boundary ++ ['"']) := by
  have hliterals : toAsciiLowercase "multipart/" = "multipart/" ∧
      toAsciiLowercase "; boundary=\"" = "; boundary=\"" ∧
      toAsciiLowercase ['"'] = ['"'] :=
    ⟨toAsciiLowercase_of_isLowercase (forall_mem_of_all (by decide)),
      toAsciiLowercase_of_isLowercase (forall_mem_of_all (by decide)), rfl⟩
  have hjoin (kind sub middle name quote : Text) :
      toAsciiLowercase (kind ++ sub ++ middle ++ name ++ quote) =
        toAsciiLowercase kind ++ toAsciiLowercase sub ++ toAsciiLowercase middle ++
          toAsciiLowercase name ++ toAsciiLowercase quote := by
    simp only [toAsciiLowercase_eq_map, map_append]
  have hname : "; boundary=\"" = [';', ' '] ++ "boundary=\"" := rfl
  unfold multipartType
  rw [hjoin, hliterals.1, hliterals.2.1, hliterals.2.2, hname]
  simp only [append_assoc, cons_append, nil_append]

theorem parameter_boundary {subtype : Text} (hsubtype : IsToken subtype)
    (hboundary : IsBoundary boundary) :
    parameter (toAsciiLowercase (multipartType subtype boundary)) "boundary".toList =
      some (toAsciiLowercase boundary) := by
  have hfront : ';' ∉ "multipart/" ++ toAsciiLowercase subtype := by
    rw [mem_append, not_or]
    exact ⟨by decide, notMem_toAsciiLowercase (by decide) fun hc ↦
      (hsubtype.2 _ hc).2.2 (by decide)⟩
  have hne : toAsciiLowercase boundary ≠ [] := by
    rw [toAsciiLowercase_eq_map, ne_eq, map_eq_nil_iff]
    exact hboundary.ne_nil
  rw [toAsciiLowercase_multipartType]
  exact parameter_quoted hfront
    (notMem_toAsciiLowercase (by decide) fun hc ↦ (hboundary.chars _ hc).facts.2.2.2.1 rfl)
    (notMem_toAsciiLowercase (by decide) fun hc ↦ (hboundary.chars _ hc).facts.2.2.2.2 rfl) hne

/-! ### Entities -/

/-- An entity: fields, an empty line and a body. -/
def entity (fields : List HeaderField) (body : Bytes) : Bytes :=
  utf8 (blockText fields) ++ [13, 10, 13, 10] ++ body

/-- A multipart body: entities between delimiters, the last of which is marked. -/
def multipart (boundary : Text) (entities : List Bytes) : Bytes :=
  utf8 (delimiter boundary) ++
    (entities.flatMap fun entity ↦ [13, 10] ++ entity ++ [13, 10] ++ utf8 (delimiter boundary)) ++
    utf8 "--"

def withoutLineEnds (bytes : Bytes) : Text := (fromUtf8Lossy bytes).rdropWhile isLineEnd

theorem joinLines_ends {first : Text} {rest : List Text}
    (h : ∀ text ∈ first :: rest, IsLine text ∧ text ≠ []) :
    (∃ c others, joinLines (first :: rest) = c :: others ∧ ¬ isLineEnd c = true) ∧
      (joinLines (first :: rest)).rdropWhile isLineEnd = joinLines (first :: rest) := by
  have hline {text : Text} (htext : IsLine text) {c : Char} (hc : c ∈ text) :
      ¬ isLineEnd c = true := fun hend ↦ by
    rcases isLineEnd_eq_true hend with rfl | rfl
    · exact htext.2 hc
    · exact htext.1 hc
  induction rest generalizing first with
  | nil =>
    obtain ⟨hfirst, hne⟩ := h first mem_cons_self
    obtain ⟨c, others, hsplit⟩ := exists_cons_of_ne_nil hne
    rw [joinLines, intercalate_singleton]
    refine ⟨⟨c, others, hsplit, hline hfirst (hsplit ▸ mem_cons_self)⟩, ?_⟩
    exact rdropWhile_eq_self_iff.mpr fun hne ↦ hline hfirst (getLast_mem hne)
  | cons second others ih =>
    obtain ⟨⟨hfirst, hne⟩, hrest⟩ := forall_mem_cons.mp h
    obtain ⟨⟨d, tail, hsecond, -⟩, hlast⟩ := ih hrest
    obtain ⟨c, front, hsplit⟩ := exists_cons_of_ne_nil hne
    rw [joinLines_cons_cons]
    refine ⟨⟨c, front ++ '\r' :: '\n' :: joinLines (second :: others), ?_,
      hline hfirst (hsplit ▸ mem_cons_self)⟩, ?_⟩
    · rw [hsplit, cons_append]
    · have hback : first ++ '\r' :: '\n' :: joinLines (second :: others) =
          first ++ ['\r', '\n'] ++ joinLines (second :: others) := by simp
      have hkept : joinLines (second :: others) ≠ [] := hsecond ▸ cons_ne_nil d tail
      rw [hback, rdropWhile_append, hlast, if_neg hkept]

/-- What a text looks like between two delimiters. -/
def segment (text : Text) : Text := "\r\n" ++ text ++ "\r\n"

theorem fromUtf8Lossy_multipart (boundary : Text) (entities : List Bytes) (tail : Bytes) :
    fromUtf8Lossy (multipart boundary entities ++ tail) =
      delimiter boundary ++ ((entities.flatMap fun entity ↦
        segment (fromUtf8Lossy entity) ++ delimiter boundary) ++ ("--" ++ fromUtf8Lossy tail)) := by
  have hentities : fromUtf8Lossy ((entities.flatMap fun entity ↦
      [13, 10] ++ entity ++ [13, 10] ++ utf8 (delimiter boundary)) ++ (utf8 "--" ++ tail)) =
      (entities.flatMap fun entity ↦ segment (fromUtf8Lossy entity) ++ delimiter boundary) ++
        ("--" ++ fromUtf8Lossy tail) := by
    induction entities with
    | nil => exact fromUtf8Lossy_utf8_append _ _
    | cons entity rest ih =>
      have hfront (bytes : Bytes) : fromUtf8Lossy ([13, 10] ++ bytes) =
          "\r\n" ++ fromUtf8Lossy bytes := fromUtf8Lossy_utf8_append "\r\n" bytes
      have hback (bytes : Bytes) : fromUtf8Lossy (entity ++ ([13, 10] ++ bytes)) =
          fromUtf8Lossy entity ++ ("\r\n" ++ fromUtf8Lossy bytes) := by
        have hascii : (13 : UInt8).toNat < 0x80 := by decide
        have hfeed := fromUtf8Lossy_utf8_append ['\n'] bytes
        have hcut := fromUtf8Lossy_append_ascii entity hascii ([10] ++ bytes)
        exact hcut.trans (congrArg (fromUtf8Lossy entity ++ '\r' :: ·) hfeed)
      rw [flatMap_cons, flatMap_cons, segment]
      simp only [append_assoc] at ih ⊢
      rw [hfront, hback, fromUtf8Lossy_utf8_append, ih]
  rw [multipart, append_assoc, append_assoc, fromUtf8Lossy_utf8_append, hentities]

theorem splitInfix_segments (hboundary : IsBoundary boundary) {texts : List Text}
    (htexts : ∀ text ∈ texts, ¬ delimiter boundary <:+: text) {tail : Text}
    (htail : ¬ delimiter boundary <:+: tail) :
    splitInfix (delimiter boundary)
      ((texts.flatMap fun text ↦ segment text ++ delimiter boundary) ++ tail) =
        texts.map segment ++ [tail] := by
  have hshort (items : Text) (hlength : items.length ≤ 1) : ¬ delimiter boundary <:+: items :=
    fun hpart ↦ by
      have hle := hpart.length_le
      have hlong := hboundary.length_delimiter
      omega
  have hdropLast : ¬ delimiter boundary <:+: (delimiter boundary).dropLast := fun hpart ↦ by
    have hle := hpart.length_le
    have hlong := hboundary.length_delimiter
    rw [length_dropLast] at hle
    omega
  induction texts with
  | nil => exact splitInfix_of_not_infix htail
  | cons text rest ih =>
    obtain ⟨htext, hrest⟩ := forall_mem_cons.mp htexts
    obtain ⟨hfeed, hreturn⟩ := hboundary.lineEnd_notMem
    have hfirst : ¬ delimiter boundary <:+: segment text ++ (delimiter boundary).dropLast := by
      intro hpart
      have hshape : segment text ++ (delimiter boundary).dropLast =
          ['\r'] ++ '\n' :: (text ++ '\r' :: ([] ++ '\n' :: (delimiter boundary).dropLast)) := by
        simp [segment]
      rw [hshape] at hpart
      rcases infix_append_cons hfeed hpart with hpart | hpart
      · exact hshort _ (by simp) hpart
      · rcases infix_append_cons hreturn hpart with hpart | hpart
        · exact htext hpart
        · rcases infix_append_cons hfeed hpart with hpart | hpart
          · exact hshort _ (by simp) hpart
          · exact hdropLast hpart
    rw [flatMap_cons, append_assoc, append_assoc,
      splitInfix_append _ (delimiter_ne_nil boundary) hfirst, ih hrest, map_cons,
      cons_append]

theorem splitMultipart_multipart (hboundary : IsBoundary boundary) {entities : List Bytes}
    (hinside : ∀ entity ∈ entities, ¬ delimiter boundary <:+: fromUtf8Lossy entity)
    (hstart : ∀ entity ∈ entities, ∃ c rest,
      fromUtf8Lossy entity = c :: rest ∧ ¬ isLineEnd c = true) {tail : Bytes}
    (htail : ¬ delimiter boundary <:+: "--" ++ fromUtf8Lossy tail) :
    splitMultipart (multipart boundary entities ++ tail) boundary =
      entities.map fun entity ↦ utf8 (withoutLineEnds entity) := by
  have htexts : ∀ text ∈ entities.map fromUtf8Lossy, ¬ delimiter boundary <:+: text := by
    intro text htext
    obtain ⟨entity, hentity, rfl⟩ := mem_map.mp htext
    exact hinside entity hentity
  have hpieces : (splitInfix (delimiter boundary)
      (fromUtf8Lossy (multipart boundary entities ++ tail))).drop 1 =
        (entities.map fromUtf8Lossy).map segment ++ ["--" ++ fromUtf8Lossy tail] := by
    have hfirst : ¬ delimiter boundary <:+: [] ++ (delimiter boundary).dropLast := fun hpart ↦ by
      have hle := hpart.length_le
      have hlong := hboundary.length_delimiter
      rw [nil_append, length_dropLast] at hle
      omega
    have hcut := splitInfix_append ((entities.flatMap fun entity ↦
      segment (fromUtf8Lossy entity) ++ delimiter boundary) ++
        ("--".toList ++ fromUtf8Lossy tail)) (delimiter_ne_nil boundary) hfirst
    have hflat : (entities.flatMap fun entity ↦
        segment (fromUtf8Lossy entity) ++ delimiter boundary) =
          (entities.map fromUtf8Lossy).flatMap fun text ↦ segment text ++ delimiter boundary :=
      by rw [flatMap_map]
    rw [fromUtf8Lossy_multipart]
    rw [nil_append] at hcut
    rw [hcut, hflat, splitInfix_segments hboundary htexts htail, drop_one, tail_cons]
  have htaken : ((entities.map fromUtf8Lossy).map segment ++
      ["--" ++ fromUtf8Lossy tail]).takeWhile (fun piece ↦ !"--".toList.isPrefixOf piece) =
        (entities.map fromUtf8Lossy).map segment := by
    have hkept : ∀ piece ∈ (entities.map fromUtf8Lossy).map segment,
        (!"--".toList.isPrefixOf piece) = true := by
      intro piece hpiece
      obtain ⟨text, -, rfl⟩ := mem_map.mp hpiece
      rfl
    rw [takeWhile_append_of_pos hkept, takeWhile_cons_of_neg (by simp), append_nil]
  have hmarker : "--" ++ boundary = delimiter boundary := rfl
  simp only [splitMultipart, hmarker]
  rw [hpieces, htaken]
  clear hinside htexts hpieces htaken
  induction entities with
  | nil => rfl
  | cons entity rest ih =>
    obtain ⟨hentity, hrest⟩ := forall_mem_cons.mp hstart
    obtain ⟨c, others, hread, hc⟩ := hentity
    have hsegment : (segment (fromUtf8Lossy entity)).dropWhile isLineEnd =
        fromUtf8Lossy entity ++ "\r\n" := by
      rw [segment, hread, append_assoc]
      exact dropWhile_cons_of_neg hc
    have htrimmed : (fromUtf8Lossy entity ++ "\r\n").rdropWhile isLineEnd =
        withoutLineEnds entity :=
      rdropWhile_append_of_all (forall_mem_of_all (by decide)) _
    have hne : withoutLineEnds entity ≠ [] := fun hnil ↦
      hc (rdropWhile_eq_nil_iff.mp hnil c (hread ▸ mem_cons_self))
    rw [map_cons, map_cons, map_cons, filterMap_cons_some (by
      rw [hsegment, htrimmed, if_neg hne]), ih hrest]

/-! ### The reading of an entity -/

variable {fields : List HeaderField}

theorem fromUtf8Lossy_entity (fields : List HeaderField) (body : Bytes) :
    fromUtf8Lossy (entity fields body) = blockText fields ++ "\r\n\r\n" ++ fromUtf8Lossy body := by
  have hempty := fromUtf8Lossy_utf8_append "\r\n\r\n" body
  rw [entity, append_assoc, fromUtf8Lossy_utf8_append, append_assoc]
  exact congrArg _ hempty

section

variable (hvalid : ∀ field ∈ fields, field.Valid) (hne : fields ≠ [])

include hvalid hne

theorem blockText_ends :
    (∃ c rest, blockText fields = c :: rest ∧ ¬ isLineEnd c = true) ∧
      (blockText fields).rdropWhile isLineEnd = blockText fields := by
  obtain ⟨field, others, rfl⟩ := exists_cons_of_ne_nil hne
  exact joinLines_ends fun line hline ↦ isLine_of_mem_block hvalid hline

theorem entity_start (body : Bytes) :
    ∃ c rest, fromUtf8Lossy (entity fields body) = c :: rest ∧ ¬ isLineEnd c = true := by
  obtain ⟨⟨c, rest, hblock, hc⟩, -⟩ := blockText_ends hvalid hne
  refine ⟨c, rest ++ "\r\n\r\n" ++ fromUtf8Lossy body, ?_, hc⟩
  rw [fromUtf8Lossy_entity, hblock, cons_append, cons_append]

theorem receivePart_entity (body : Bytes)
    (parse : HeaderMap → Bytes → ParsedMail → Except ProvisioningError ParsedMail)
    (parsed : ParsedMail) :
    receivePart parse parsed (utf8 (withoutLineEnds (entity fields body))) =
      if withoutLineEnds body = [] then .ok parsed
      else parse (fieldMap fields) (utf8 (withoutLineEnds body)) parsed := by
  obtain ⟨-, hends⟩ := blockText_ends hvalid hne
  have htext : withoutLineEnds (entity fields body) = if withoutLineEnds body = [] then
        (blockText fields ++ "\r\n\r\n").rdropWhile isLineEnd
      else blockText fields ++ "\r\n\r\n".toList ++ withoutLineEnds body := by
    rw [withoutLineEnds, fromUtf8Lossy_entity]
    exact rdropWhile_append _ _ _
  by_cases hbody : withoutLineEnds body = []
  · have hblock : withoutLineEnds (entity fields body) = blockText fields := by
      have hempty : ∀ c ∈ "\r\n\r\n".toList, isLineEnd c = true := forall_mem_of_all (by decide)
      rw [htext, if_pos hbody, rdropWhile_append_of_all hempty, hends]
    rw [if_pos hbody, hblock, receivePart, splitHeadersBody_of_block hvalid]
  · have hentity : utf8 (withoutLineEnds (entity fields body)) =
        utf8 (blockText fields) ++ [13, 10, 13, 10] ++ utf8 (withoutLineEnds body) := by
      rw [htext, if_neg hbody, utf8_append, utf8_append]
      rfl
    rw [if_neg hbody, hentity, receivePart, splitHeadersBody_block hvalid]
    dsimp only
    rw [parseHeaders_fields hvalid, ok_bind]

end

end GameLauncher.Provisioning
