import GameLauncher.Provisioning.MailParsing

/-!
# Transfer encodings of mail bodies

A body holds its text as it is, in base64 or in the quoted-printable form. The parser cuts the line
ends off the end of a body before it decodes it. `TransferEncoding.Encodes.decodes` says that the
text is read all the same, up to the white space around it, unless what ends the cut body is the
sign of a soft line break.
-/

set_option autoImplicit false

namespace GameLauncher.Provisioning

open Foundation Fallible List

inductive TransferEncoding
  | identity
  | base64
  | quotedPrintable
  deriving DecidableEq, Repr

namespace TransferEncoding

/-- The name of an encoding in a header. -/
def token : TransferEncoding → Text
  | identity => "8bit"
  | base64 => "base64"
  | quotedPrintable => "quoted-printable"

end TransferEncoding

/-- The quoted-printable form of bytes: an ASCII character as it is, any byte as an escape, and soft
line breaks, which stand for nothing. -/
inductive QuotedBody : Bytes → Text → Prop
  | nil : QuotedBody [] []
  | literal {c : Char} {bytes : Bytes} {text : Text} (hascii : IsAscii c) (hequals : c ≠ '=')
      (hrest : QuotedBody bytes text) : QuotedBody (UInt8.ofNat c.toNat :: bytes) (c :: text)
  | escaped {byte : UInt8} {high low : Char} {bytes : Bytes} {text : Text}
      (hhigh : IsDigitOf (byte.toNat / 16) high) (hlow : IsDigitOf (byte.toNat % 16) low)
      (hrest : QuotedBody bytes text) : QuotedBody (byte :: bytes) ('=' :: high :: low :: text)
  | soft {bytes : Bytes} {text : Text} (hrest : QuotedBody bytes text) :
      QuotedBody bytes ('=' :: '\r' :: '\n' :: text)

namespace TransferEncoding

/-- A body that an encoding may give for a text. Base64 is broken into lines anywhere. -/
def Encodes (encoding : TransferEncoding) (content body : Text) : Prop :=
  match encoding with
  | identity => body = content
  | base64 => body.filter (fun c ↦ !isLineEnd c) = Base64.encode (utf8 content)
  | quotedPrintable => QuotedBody (utf8 content) body

/-- A quoted-printable body whose last sign, line ends apart, is that of a soft line break. -/
def EndsSoft (encoding : TransferEncoding) (body : Text) : Prop :=
  encoding = quotedPrintable ∧ (body.rdropWhile isLineEnd).getLast? = some '='

end TransferEncoding

/-! ### The quoted-printable form -/

theorem isLineEnd_eq_true {c : Char} (h : isLineEnd c = true) : c = '\r' ∨ c = '\n' := by
  simpa [isLineEnd] using h

theorem isAscii_of_isLineEnd {c : Char} (h : isLineEnd c = true) : IsAscii c := by
  rcases isLineEnd_eq_true h with rfl | rfl
  · decide
  · decide

theorem isWhitespace_of_isLineEnd {c : Char} (h : isLineEnd c = true) : isWhitespace c = true := by
  rcases isLineEnd_eq_true h with rfl | rfl
  · decide
  · decide

theorem not_isLineEnd_of_isDigitOf {value : ℕ} (hvalue : value < 16) {c : Char}
    (h : IsDigitOf value c) : ¬ isLineEnd c = true := by
  intro hline
  obtain ⟨-, -, -, -, -, hreturn, hnewline⟩ := hexValue_of_isDigitOf hvalue h
  rcases isLineEnd_eq_true hline with rfl | rfl
  · exact hreturn rfl
  · exact hnewline rfl

theorem QuotedBody.decodes {bytes : Bytes} {text : Text} (h : QuotedBody bytes text) :
    decodeQuotedPrintable (utf8 text) = .ok bytes := by
  induction h with
  | nil => rfl
  | @literal c bytes text hascii hequals _ ih =>
    have hbyte : UInt8.ofNat c.toNat ≠ 61 := fun hbyte ↦ by
      have hvalue := congrArg UInt8.toNat hbyte
      rw [toNat_ofNat_of_lt (lt_trans hascii (by decide))] at hvalue
      exact hequals (Char.toNat_inj.mp hvalue)
    rw [utf8_cons, utf8Char_of_ascii hascii, singleton_append, decodeQuotedPrintable_cons hbyte, ih]
    rfl
  | @escaped byte high low bytes text hhigh hlow _ ih =>
    have hbyte := byte.toNat_lt
    obtain ⟨-, hhighAscii, -⟩ := hexValue_of_isDigitOf (by omega) hhigh
    obtain ⟨-, hlowAscii, -⟩ := hexValue_of_isDigitOf (by omega) hlow
    rw [utf8_cons, utf8_cons, utf8_cons, utf8Char_of_ascii hhighAscii, utf8Char_of_ascii hlowAscii]
    change decodeQuotedPrintable (61 :: UInt8.ofNat high.toNat :: UInt8.ofNat low.toNat :: _) = _
    rw [decodeQuotedPrintable_escape hhigh hlow]
    change (decodeQuotedPrintable (utf8 text) >>= _) = _
    rw [ih]
    rfl
  | @soft bytes text _ ih => exact ih

theorem QuotedBody.of_append {bytes : Bytes} {text tail : Text} (h : QuotedBody bytes (text ++ tail))
    (htail : ∀ c ∈ tail, isLineEnd c = true)
    (hlast : ∀ c ∈ text.getLast?, c ≠ '=' ∧ ¬ isLineEnd c = true) :
    ∃ kept, QuotedBody kept text ∧ bytes = kept ++ utf8 tail := by
  generalize hwhole : text ++ tail = whole at h
  induction h generalizing text tail with
  | nil =>
    obtain ⟨rfl, rfl⟩ := append_eq_nil_iff.mp hwhole
    exact ⟨[], .nil, rfl⟩
  | @literal c bytes rest hascii hequals _ ih =>
    cases text with
    | nil =>
      obtain rfl : tail = c :: rest := hwhole
      obtain ⟨kept, hkept, hbytes⟩ := @ih [] rest
        (fun d hd ↦ htail d (mem_cons_of_mem _ hd)) hlast rfl
      cases hkept
      refine ⟨[], .nil, ?_⟩
      rw [utf8_cons, utf8Char_of_ascii hascii, hbytes]
      rfl
    | cons d text =>
      obtain ⟨rfl, hrest⟩ := List.cons.inj hwhole
      obtain ⟨kept, hkept, hbytes⟩ := ih htail
        (fun e he ↦ hlast e (mem_getLast?_cons he)) hrest
      exact ⟨_, .literal hascii hequals hkept, congrArg _ hbytes⟩
  | @escaped byte high low bytes rest hhigh hlow _ ih =>
    have hbyte := byte.toNat_lt
    match text with
    | [] =>
      obtain rfl : tail = '=' :: high :: low :: rest := hwhole
      exact absurd (htail '=' mem_cons_self) (by decide)
    | [d] =>
      obtain ⟨rfl, -⟩ := List.cons.inj hwhole
      exact absurd rfl (hlast '=' rfl).1
    | [d, e] =>
      simp only [cons_append, nil_append, List.cons.injEq] at hwhole
      obtain ⟨rfl, rfl, rfl⟩ := hwhole
      exact absurd (htail low mem_cons_self) (not_isLineEnd_of_isDigitOf (by omega) hlow)
    | d :: e :: f :: text =>
      simp only [cons_append, List.cons.injEq] at hwhole
      obtain ⟨rfl, rfl, rfl, hrest⟩ := hwhole
      obtain ⟨kept, hkept, hbytes⟩ := ih htail (fun c hc ↦ hlast c (mem_getLast?_cons
        (mem_getLast?_cons (mem_getLast?_cons hc)))) hrest
      exact ⟨_, .escaped hhigh hlow hkept, congrArg _ hbytes⟩
  | @soft bytes rest _ ih =>
    match text with
    | [] =>
      obtain rfl : tail = '=' :: '\r' :: '\n' :: rest := hwhole
      exact absurd (htail '=' mem_cons_self) (by decide)
    | [d] =>
      obtain ⟨rfl, -⟩ := List.cons.inj hwhole
      exact absurd rfl (hlast '=' rfl).1
    | [d, e] =>
      simp only [cons_append, nil_append, List.cons.injEq] at hwhole
      obtain ⟨rfl, rfl, -⟩ := hwhole
      exact absurd (by decide) (hlast '\r' rfl).2
    | d :: e :: f :: text =>
      simp only [cons_append, List.cons.injEq] at hwhole
      obtain ⟨rfl, rfl, rfl, hrest⟩ := hwhole
      obtain ⟨kept, hkept, hbytes⟩ := ih htail (fun c hc ↦ hlast c (mem_getLast?_cons
        (mem_getLast?_cons (mem_getLast?_cons hc)))) hrest
      exact ⟨_, .soft hkept, hbytes⟩

/-! ### Bodies without the line ends at their end -/

theorem isBlank_of_lineEnds {text : Text} (h : ∀ c ∈ text, isLineEnd c = true) : IsBlank text :=
  fun c hc ↦ isWhitespace_of_isLineEnd (h c hc)

theorem exists_lineEnds (body : Text) : ∃ tail, body = body.rdropWhile isLineEnd ++ tail ∧
    ∀ c ∈ tail, isLineEnd c = true :=
  ⟨body.rtakeWhile isLineEnd, rdropWhile_append_rtakeWhile.symm, fun _ hc ↦ mem_rtakeWhile_imp hc⟩

theorem decodeTransferEncoding_base64 {content body : Text}
    (h : body.filter (fun c ↦ !isLineEnd c) = Base64.encode (utf8 content)) :
    decodeTransferEncoding (utf8 body) (some TransferEncoding.base64.token) =
      .ok (utf8 content) := by
  have hcases {c : Char} (hc : c ∈ body) : isLineEnd c = true ∨ 33 ≤ c.toNat ∧ c.toNat ≤ 126 := by
    by_cases hline : isLineEnd c = true
    · exact .inl hline
    · have hkept : c ∈ body.filter fun c ↦ !isLineEnd c :=
        mem_filter.mpr ⟨hc, by simpa using hline⟩
      rw [h] at hkept
      exact .inr (Base64.visible_of_mem_encode hkept)
  have hascii : ∀ c ∈ body, IsAscii c := fun c hc ↦ by
    rcases hcases hc with hline | hvisible
    · exact isAscii_of_isLineEnd hline
    · exact lt_of_le_of_lt hvisible.2 (by decide)
  have hvalue {c : Char} (hc : c ∈ body) : (UInt8.ofNat c.toNat).toNat = c.toNat :=
    toNat_ofNat_of_lt (lt_trans (hascii c hc) (by decide))
  have hsame : ∀ c ∈ body, (!isAsciiWhitespace (UInt8.ofNat c.toNat)) = !isLineEnd c := by
    intro c hc
    rcases hcases hc with hline | hvisible
    · rcases isLineEnd_eq_true hline with rfl | rfl
      · rfl
      · rfl
    · have hbyte {value : UInt8} (hlow : value.toNat < 33) : UInt8.ofNat c.toNat ≠ value := by
        rintro rfl
        rw [hvalue hc] at hlow
        omega
      have hchar {other : Char} (hlow : other.toNat < 33) : c ≠ other := by
        rintro rfl
        omega
      have hspace : isAsciiWhitespace (UInt8.ofNat c.toNat) = false := by
        simp [isAsciiWhitespace, hbyte]
      have hline : isLineEnd c = false := by
        simp [isLineEnd, hchar]
      rw [hspace, hline]
  have hsymbols : ((utf8 body).filter fun byte ↦ !isAsciiWhitespace byte).map
      (fun byte ↦ Char.ofNat byte.toNat) = Base64.encode (utf8 content) := by
    rw [utf8_of_ascii hascii, filter_map, map_map, ← h]
    have hfilter : body.filter ((fun byte ↦ !isAsciiWhitespace byte) ∘
        fun c ↦ UInt8.ofNat c.toNat) = body.filter fun c ↦ !isLineEnd c :=
      filter_congr hsame
    rw [hfilter]
    refine (map_congr_left fun c hc ↦ ?_).trans (map_id _)
    have hmem : c ∈ body := mem_of_mem_filter hc
    rw [Function.comp_apply, hvalue hmem, Char.ofNat_toNat]
    rfl
  have htoken : toAsciiLowercase (trim ((some TransferEncoding.base64.token).getD [])) =
      "base64" := by decide
  rw [decodeTransferEncoding, htoken, if_pos rfl, hsymbols, Base64.decode_encode]
  rfl

theorem TransferEncoding.Encodes.decodes {encoding : TransferEncoding} {content body : Text}
    (h : encoding.Encodes content body) (hend : ¬ encoding.EndsSoft body) :
    ∃ decoded, decodeTransferEncoding (utf8 (body.rdropWhile isLineEnd)) (some encoding.token) =
      .ok decoded ∧ trim (fromUtf8Lossy decoded) = trim content := by
  obtain ⟨tail, hsplit, htail⟩ := exists_lineEnds body
  cases encoding with
  | identity =>
    have htoken : toAsciiLowercase (trim ((some identity.token).getD [])) = "8bit" := by
      decide
    have hbody : body = content := h
    refine ⟨utf8 (body.rdropWhile isLineEnd), ?_, ?_⟩
    · rw [decodeTransferEncoding, htoken, if_neg (by decide), if_neg (by decide)]
    · rw [fromUtf8Lossy_utf8, ← trim_append_blank _ (isBlank_of_lineEnds htail), ← hsplit, hbody]
  | base64 =>
    have hsymbols : (body.rdropWhile isLineEnd).filter (fun c ↦ !isLineEnd c) =
        Base64.encode (utf8 content) := by
      have hnone : tail.filter (fun c ↦ !isLineEnd c) = [] :=
        filter_eq_nil_iff.mpr fun c hc ↦ by simp [htail c hc]
      have hbody : body.filter (fun c ↦ !isLineEnd c) = Base64.encode (utf8 content) := h
      rw [hsplit, filter_append, hnone, append_nil] at hbody
      exact hbody
    exact ⟨_, decodeTransferEncoding_base64 hsymbols, by rw [fromUtf8Lossy_utf8]⟩
  | quotedPrintable =>
    have htoken : toAsciiLowercase (trim ((some quotedPrintable.token).getD [])) =
        "quoted-printable" := by decide
    have hbody : QuotedBody (utf8 content) (body.rdropWhile isLineEnd ++ tail) := hsplit ▸ h
    obtain ⟨kept, hkept, hbytes⟩ := hbody.of_append htail fun c hc ↦ by
      refine ⟨?_, ?_⟩
      · rintro rfl
        exact hend ⟨rfl, hc⟩
      · have hne : body.rdropWhile isLineEnd ≠ [] := fun hnil ↦ by
          rw [hnil] at hc
          cases hc
        rw [List.getLast?_eq_some_getLast hne] at hc
        exact Option.some.inj hc ▸ rdropWhile_last_not _ _ hne
    refine ⟨kept, ?_, ?_⟩
    · rw [decodeTransferEncoding, htoken, if_neg (by decide), if_pos rfl, hkept.decodes]
    · have hread := fromUtf8Lossy_append_text kept fun c hc ↦ isAscii_of_isLineEnd (htail c hc)
      rw [← hbytes, fromUtf8Lossy_utf8] at hread
      rw [hread, trim_append_blank _ (isBlank_of_lineEnds htail)]

end GameLauncher.Provisioning
