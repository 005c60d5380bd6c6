import GameLauncher.Foundation.Text

/-!
# Reading UTF-8

`fromUtf8Lossy` is the reading of bytes that cannot fail: every longest piece of an invalid
sequence becomes one replacement character. What is the encoding of a text reads as that text
(`fromUtf8Lossy_utf8`).

A Rust `str` is cut at a byte offset, and the cut panics inside a character. `splitAtByte` is the
cut that is absent there, and `splitAtByte_append` computes it at a boundary.
-/

set_option autoImplicit false

namespace GameLauncher.Foundation

open List

@[simp] theorem utf8_nil : utf8 [] = [] := rfl

@[simp] theorem utf8_cons (c : Char) (rest : Text) : utf8 (c :: rest) = utf8Char c ++ utf8 rest :=
  flatMap_cons

@[simp] theorem utf8_append (first second : Text) :
    utf8 (first ++ second) = utf8 first ++ utf8 second :=
  flatMap_append

theorem notMem_utf8 {text : Text} {c : Char} (hascii : IsAscii c) (h : c ∉ text) :
    UInt8.ofNat c.toNat ∉ utf8 text := by
  have hvalue : (UInt8.ofNat c.toNat).toNat = c.toNat := by
    unfold IsAscii at hascii
    rw [UInt8.toNat_ofNat']
    omega
  intro hmem
  obtain ⟨other, hother, hbyte⟩ := mem_flatMap.mp hmem
  have hotherAscii := mem_utf8Char_lt hbyte (hvalue.trans_lt hascii)
  rw [utf8Char_of_ascii hotherAscii, mem_singleton] at hbyte
  have hcode := congrArg UInt8.toNat hbyte
  unfold IsAscii at hotherAscii
  rw [hvalue, UInt8.toNat_ofNat', Nat.mod_eq_of_lt (by omega)] at hcode
  exact h (Char.toNat_inj.mp hcode ▸ hother)

/-! ### Sequences -/

/-- The character that stands for what is not UTF-8. -/
def replacementCharacter : Char := Char.ofNat 0xFFFD

/-- `utf8_char_width`: the length of the sequence that a byte begins, zero for no sequence. -/
def utf8CharWidth (lead : ℕ) : ℕ :=
  if lead < 0x80 then 1
  else if 0xC2 ≤ lead ∧ lead ≤ 0xDF then 2
  else if 0xE0 ≤ lead ∧ lead ≤ 0xEF then 3
  else if 0xF0 ≤ lead ∧ lead ≤ 0xF4 then 4
  else 0

/-- A byte that continues a sequence. -/
def IsContinuation (byte : ℕ) : Prop := 0x80 ≤ byte ∧ byte ≤ 0xBF

instance (byte : ℕ) : Decidable (IsContinuation byte) :=
  inferInstanceAs (Decidable (0x80 ≤ byte ∧ byte ≤ 0xBF))

/-- A byte that may come second: no overlong encoding, no surrogate and nothing past the last
scalar value. -/
def MayFollow (lead byte : ℕ) : Prop :=
  IsContinuation byte ∧ (lead = 0xE0 → 0xA0 ≤ byte) ∧ (lead = 0xED → byte ≤ 0x9F) ∧
    (lead = 0xF0 → 0x90 ≤ byte) ∧ (lead = 0xF4 → byte ≤ 0x8F)

instance (lead byte : ℕ) : Decidable (MayFollow lead byte) :=
  inferInstanceAs (Decidable (IsContinuation byte ∧ (lead = 0xE0 → 0xA0 ≤ byte) ∧
    (lead = 0xED → byte ≤ 0x9F) ∧ (lead = 0xF0 → 0x90 ≤ byte) ∧ (lead = 0xF4 → byte ≤ 0x8F)))

/-- The byte at an index, zero past the end. -/
def byteAt (bytes : Bytes) (index : ℕ) : ℕ := (bytes[index]?.getD 0).toNat

/-- The character that a byte begins, and how many of the bytes after it belong to it. -/
def scanChar (lead : ℕ) (rest : Bytes) : Char × ℕ :=
  let second := byteAt rest 0
  let third := byteAt rest 1
  let fourth := byteAt rest 2
  if utf8CharWidth lead = 1 then (Char.ofNat lead, 0)
  else if utf8CharWidth lead = 0 ∨ ¬ MayFollow lead second then (replacementCharacter, 0)
  else if utf8CharWidth lead = 2 then (Char.ofNat ((lead - 0xC0) * 64 + (second - 0x80)), 1)
  else if ¬ IsContinuation third then (replacementCharacter, 1)
  else if utf8CharWidth lead = 3 then
    (Char.ofNat ((lead - 0xE0) * 4096 + (second - 0x80) * 64 + (third - 0x80)), 2)
  else if ¬ IsContinuation fourth then (replacementCharacter, 2)
  else
    (Char.ofNat ((lead - 0xF0) * 262144 + (second - 0x80) * 4096 + (third - 0x80) * 64 +
      (fourth - 0x80)), 3)

/-- The reading of the bytes after those that belong to the character before. -/
def lossyFrom : ℕ → Bytes → Text
  | _, [] => []
  | skipped + 1, _ :: rest => lossyFrom skipped rest
  | 0, lead :: rest => (scanChar lead.toNat rest).1 :: lossyFrom (scanChar lead.toNat rest).2 rest

/-- `String::from_utf8_lossy`. -/
def fromUtf8Lossy (bytes : Bytes) : Text := lossyFrom 0 bytes

theorem lossyFrom_append (first second : Bytes) :
    lossyFrom first.length (first ++ second) = lossyFrom 0 second := by
  induction first with
  | nil => rfl
  | cons byte rest ih => exact ih

theorem toNat_ofNat_of_lt {value : ℕ} (h : value < 256) : (UInt8.ofNat value).toNat = value := by
  rw [UInt8.toNat_ofNat']
  omega

theorem Char.toNat_surrogate (c : Char) : ¬ (0xD800 ≤ c.toNat ∧ c.toNat ≤ 0xDFFF) := by
  intro h
  rcases c.valid with hlow | hhigh
  · exact absurd hlow (not_lt.mpr h.1)
  · exact absurd hhigh.1 (not_lt.mpr h.2)

@[simp] theorem byteAt_cons_zero (byte : UInt8) (rest : Bytes) :
    byteAt (byte :: rest) 0 = byte.toNat := rfl

@[simp] theorem byteAt_cons_succ (byte : UInt8) (rest : Bytes) (index : ℕ) :
    byteAt (byte :: rest) (index + 1) = byteAt rest index := rfl

/-- The sequence of a scalar value is read as that value, whatever comes after it. -/
theorem scanChar_utf8Char (c : Char) {lead : UInt8} {tail : Bytes} (h : utf8Char c = lead :: tail)
    (rest : Bytes) : scanChar lead.toNat (tail ++ rest) = (c, tail.length) := by
  have hbound := Char.toNat_lt_utf8 c
  have hsurrogate := Char.toNat_surrogate c
  unfold utf8Char at h
  split_ifs at h with hone htwo hthree <;> obtain ⟨rfl, rfl⟩ := List.cons.inj h <;>
    simp (disch := omega) only [scanChar, cons_append, nil_append, byteAt_cons_zero,
      byteAt_cons_succ, toNat_ofNat_of_lt]
  · have hwidth : utf8CharWidth c.toNat = 1 := if_pos hone
    rw [if_pos hwidth, Char.ofNat_toNat]
    rfl
  · have hwidth : utf8CharWidth (0xC0 + c.toNat / 64) = 2 := by
      rw [utf8CharWidth, if_neg (by omega), if_pos (by omega)]
    have hfollow : MayFollow (0xC0 + c.toNat / 64) (0x80 + c.toNat % 64) := by
      unfold MayFollow IsContinuation
      omega
    have hvalue : (0xC0 + c.toNat / 64 - 0xC0) * 64 + (0x80 + c.toNat % 64 - 0x80) = c.toNat := by
      omega
    rw [hwidth, if_neg (by decide), if_neg (by simp [hfollow]), if_pos rfl, hvalue,
      Char.ofNat_toNat]
    rfl
  · have hwidth : utf8CharWidth (0xE0 + c.toNat / 4096) = 3 := by
      rw [utf8CharWidth, if_neg (by omega), if_neg (by omega), if_pos (by omega)]
    have hfollow : MayFollow (0xE0 + c.toNat / 4096) (0x80 + c.toNat / 64 % 64) := by
      unfold MayFollow IsContinuation
      omega
    have hcontinues : IsContinuation (0x80 + c.toNat % 64) := by
      unfold IsContinuation
      omega
    have hvalue : (0xE0 + c.toNat / 4096 - 0xE0) * 4096 + (0x80 + c.toNat / 64 % 64 - 0x80) * 64 +
        (0x80 + c.toNat % 64 - 0x80) = c.toNat := by
      omega
    rw [hwidth, if_neg (by decide), if_neg (by simp [hfollow]), if_neg (by decide),
      if_neg (not_not.mpr hcontinues), if_pos rfl, hvalue, Char.ofNat_toNat]
    rfl
  · have hwidth : utf8CharWidth (0xF0 + c.toNat / 262144) = 4 := by
      rw [utf8CharWidth, if_neg (by omega), if_neg (by omega), if_neg (by omega), if_pos (by omega)]
    have hfollow : MayFollow (0xF0 + c.toNat / 262144) (0x80 + c.toNat / 4096 % 64) := by
      unfold MayFollow IsContinuation
      omega
    have hcontinues : IsContinuation (0x80 + c.toNat / 64 % 64) ∧
        IsContinuation (0x80 + c.toNat % 64) := by
      unfold IsContinuation
      omega
    have hvalue : (0xF0 + c.toNat / 262144 - 0xF0) * 262144 +
        (0x80 + c.toNat / 4096 % 64 - 0x80) * 4096 + (0x80 + c.toNat / 64 % 64 - 0x80) * 64 +
        (0x80 + c.toNat % 64 - 0x80) = c.toNat := by
      omega
    rw [hwidth, if_neg (by decide), if_neg (by simp [hfollow]), if_neg (by decide),
      if_neg (not_not.mpr hcontinues.1), if_neg (by decide), if_neg (not_not.mpr hcontinues.2),
      hvalue, Char.ofNat_toNat]
    rfl

theorem fromUtf8Lossy_utf8_append (text : Text) (rest : Bytes) :
    fromUtf8Lossy (utf8 text ++ rest) = text ++ fromUtf8Lossy rest := by
  induction text with
  | nil => rfl
  | cons c others ih =>
    obtain ⟨lead, tail, hchar⟩ := exists_cons_of_ne_nil (utf8Char_ne_nil c)
    rw [utf8_cons, hchar, append_assoc, cons_append, fromUtf8Lossy, lossyFrom,
      scanChar_utf8Char c hchar, lossyFrom_append]
    exact congrArg _ ih

theorem fromUtf8Lossy_utf8 (text : Text) : fromUtf8Lossy (utf8 text) = text := by
  have h := fromUtf8Lossy_utf8_append text []
  rwa [append_nil, fromUtf8Lossy, fromUtf8Lossy, lossyFrom, append_nil] at h

theorem scanChar_append_ascii (lead : ℕ) (first : Bytes) {byte : UInt8}
    (hbyte : byte.toNat < 0x80) (second : Bytes) :
    scanChar lead (first ++ byte :: second) = scanChar lead first ∧
      (scanChar lead first).2 ≤ first.length := by
  have hfollow {value : ℕ} (hvalue : value < 0x80) : ¬ MayFollow lead value := fun h ↦ by
    have hcontinues := h.1.1
    omega
  have hcontinue {value : ℕ} (hvalue : value < 0x80) : ¬ IsContinuation value := fun h ↦ by
    have hcontinues := h.1
    omega
  match first with
  | [] =>
    have hsome : byteAt ([] ++ byte :: second) 0 = byte.toNat := rfl
    have hnone : byteAt [] 0 = 0 := rfl
    simp only [scanChar, hsome, hnone, hfollow hbyte, hfollow (show 0 < 0x80 by omega),
      not_false_eq_true, or_true, if_true]
    split_ifs <;> simp
  | [a] =>
    have hsome : byteAt ([a] ++ byte :: second) 1 = byte.toNat := rfl
    have hnone : byteAt [a] 1 = 0 := rfl
    have hsame : byteAt ([a] ++ byte :: second) 0 = byteAt [a] 0 := rfl
    simp only [scanChar, hsome, hnone, hsame, hcontinue hbyte,
      hcontinue (show 0 < 0x80 by omega), not_false_eq_true, if_true]
    split_ifs <;> simp
  | [a, b] =>
    have hsome : byteAt ([a, b] ++ byte :: second) 2 = byte.toNat := rfl
    have hnone : byteAt [a, b] 2 = 0 := rfl
    have hsame : byteAt ([a, b] ++ byte :: second) 0 = byteAt [a, b] 0 := rfl
    have hnext : byteAt ([a, b] ++ byte :: second) 1 = byteAt [a, b] 1 := rfl
    simp only [scanChar, hsome, hnone, hsame, hnext, hcontinue hbyte,
      hcontinue (show 0 < 0x80 by omega), not_false_eq_true, if_true]
    split_ifs <;> simp
  | a :: b :: d :: rest =>
    have hsame : scanChar lead (a :: b :: d :: rest ++ byte :: second) =
        scanChar lead (a :: b :: d :: rest) := rfl
    refine ⟨hsame, ?_⟩
    simp only [scanChar, length_cons]
    split_ifs <;> simp

theorem fromUtf8Lossy_append_ascii (first : Bytes) {byte : UInt8} (hbyte : byte.toNat < 0x80)
    (second : Bytes) :
    fromUtf8Lossy (first ++ byte :: second) =
      fromUtf8Lossy first ++ Char.ofNat byte.toNat :: fromUtf8Lossy second := by
  have hall (skipped : ℕ) (hskipped : skipped ≤ first.length) :
      lossyFrom skipped (first ++ byte :: second) =
        lossyFrom skipped first ++ Char.ofNat byte.toNat :: lossyFrom 0 second := by
    induction first generalizing skipped with
    | nil =>
      obtain rfl : skipped = 0 := Nat.le_zero.mp hskipped
      have hscan : scanChar byte.toNat second = (Char.ofNat byte.toNat, 0) :=
        if_pos (if_pos hbyte)
      change (scanChar byte.toNat second).1 :: lossyFrom (scanChar byte.toNat second).2 second = _
      rw [hscan]
      rfl
    | cons lead rest ih =>
      cases skipped with
      | zero =>
        obtain ⟨hscan, hlength⟩ := scanChar_append_ascii lead.toNat rest hbyte second
        rw [cons_append, lossyFrom, lossyFrom, hscan, ih _ hlength, cons_append]
      | succ skipped => exact ih skipped (Nat.le_of_succ_le_succ hskipped)
  exact hall 0 (Nat.zero_le _)

theorem fromUtf8Lossy_append_text (first : Bytes) {text : Text} (h : ∀ c ∈ text, IsAscii c) :
    fromUtf8Lossy (first ++ utf8 text) = fromUtf8Lossy first ++ text := by
  cases text with
  | nil => rw [utf8_nil, append_nil, append_nil]
  | cons c rest =>
    have hc : IsAscii c := h c mem_cons_self
    have hvalue : (UInt8.ofNat c.toNat).toNat = c.toNat :=
      toNat_ofNat_of_lt (lt_trans hc (by decide))
    rw [utf8_cons, utf8Char_of_ascii hc, singleton_append,
      fromUtf8Lossy_append_ascii first (hvalue.trans_lt hc), hvalue, Char.ofNat_toNat,
      fromUtf8Lossy_utf8]

theorem lead_of_width (lead : ℕ) :
    utf8CharWidth lead = 0 ∨ utf8CharWidth lead = 1 ∧ lead < 0x80 ∨
      utf8CharWidth lead = 2 ∧ 0xC2 ≤ lead ∧ lead ≤ 0xDF ∨
      utf8CharWidth lead = 3 ∧ 0xE0 ≤ lead ∧ lead ≤ 0xEF ∨
      utf8CharWidth lead = 4 ∧ 0xF0 ≤ lead ∧ lead ≤ 0xF4 := by
  unfold utf8CharWidth
  split_ifs <;> simp_all

theorem not_isAscii_ofNat {value : ℕ} (hvalid : value.isValidChar) (hlarge : 0x80 ≤ value) :
    ¬ IsAscii (Char.ofNat value) := by
  have hvalue : (Char.ofNat value).toNat = value := by
    rw [Char.ofNat, dif_pos hvalid]
    rfl
  unfold IsAscii
  omega

theorem scanChar_ascii {lead : ℕ} {rest : Bytes} (h : IsAscii (scanChar lead rest).1) :
    scanChar lead rest = (Char.ofNat lead, 0) ∧ lead < 0x80 := by
  have hreplacement : ¬ IsAscii replacementCharacter := by decide
  revert h
  unfold scanChar
  generalize byteAt rest 0 = second
  generalize byteAt rest 1 = third
  generalize byteAt rest 2 = fourth
  intro h
  dsimp only at h ⊢
  by_cases hfollow : utf8CharWidth lead = 0 ∨ ¬ MayFollow lead second
  · by_cases hone : utf8CharWidth lead = 1
    · rw [if_pos hone]
      refine ⟨rfl, ?_⟩
      have hlead := lead_of_width lead
      omega
    · rw [if_neg hone, if_pos hfollow] at h
      exact absurd h hreplacement
  · have hbytes := not_or.mp hfollow
    rw [not_not, MayFollow, IsContinuation] at hbytes
    rcases lead_of_width lead with hlead | ⟨hlead, hrange⟩ | ⟨hlead, hrange⟩ | ⟨hlead, hrange⟩ |
      ⟨hlead, hrange⟩
    · exact absurd hlead hbytes.1
    · rw [if_pos hlead]
      exact ⟨rfl, hrange⟩
    · rw [if_neg (by omega), if_neg hfollow, if_pos hlead] at h
      dsimp only at h
      refine absurd h (not_isAscii_ofNat (.inl ?_) ?_)
      · omega
      · omega
    · rw [if_neg (by omega), if_neg hfollow, if_neg (by omega)] at h
      by_cases hthird : IsContinuation third
      · rw [if_neg (not_not.mpr hthird), if_pos hlead] at h
        dsimp only at h
        unfold IsContinuation at hthird
        refine absurd h (not_isAscii_ofNat ?_ ?_)
        · unfold Nat.isValidChar
          omega
        · omega
      · rw [if_pos hthird] at h
        exact absurd h hreplacement
    · rw [if_neg (by omega), if_neg hfollow, if_neg (by omega)] at h
      by_cases hthird : IsContinuation third
      · rw [if_neg (not_not.mpr hthird), if_neg (by omega)] at h
        by_cases hfourth : IsContinuation fourth
        · rw [if_neg (not_not.mpr hfourth)] at h
          dsimp only at h
          unfold IsContinuation at hthird hfourth
          refine absurd h (not_isAscii_ofNat (.inr ?_) ?_)
          · omega
          · omega
        · rw [if_pos hfourth] at h
          exact absurd h hreplacement
      · rw [if_pos hthird] at h
        exact absurd h hreplacement

theorem prefix_of_prefix_fromUtf8Lossy {text : Text} (hascii : ∀ c ∈ text, IsAscii c)
    {bytes : Bytes} (h : text <+: fromUtf8Lossy bytes) : utf8 text <+: bytes := by
  induction text generalizing bytes with
  | nil => exact nil_prefix
  | cons c rest ih =>
    obtain ⟨hc, hrest⟩ := forall_mem_cons.mp hascii
    cases bytes with
    | nil => exact absurd (List.prefix_nil.mp h) (cons_ne_nil _ _)
    | cons lead others =>
      have hread : fromUtf8Lossy (lead :: others) = (scanChar lead.toNat others).1 ::
          lossyFrom (scanChar lead.toNat others).2 others := rfl
      rw [hread, cons_prefix_cons] at h
      obtain ⟨hscan, hlead⟩ := scanChar_ascii (h.1 ▸ hc)
      rw [hscan] at h
      obtain ⟨rfl, hothers⟩ := h
      rw [utf8_cons, utf8Char_of_ascii hc, singleton_append]
      have hvalue : (Char.ofNat lead.toNat).toNat = lead.toNat := by
        rw [Char.ofNat, dif_pos (.inl (by omega))]
        rfl
      rw [hvalue, UInt8.ofNat_toNat]
      exact (prefix_cons_inj lead).mpr (ih hrest hothers)

theorem infix_of_infix_fromUtf8Lossy {text : Text} (hascii : ∀ c ∈ text, IsAscii c)
    {bytes : Bytes} (h : text <:+: fromUtf8Lossy bytes) : utf8 text <:+: bytes := by
  have hall (skipped : ℕ) (bytes : Bytes) (hread : text <:+: lossyFrom skipped bytes) :
      utf8 text <:+: bytes := by
    induction bytes generalizing skipped with
    | nil =>
      have hempty : text = [] := by
        cases skipped with
        | zero => exact infix_nil.mp hread
        | succ skipped => exact infix_nil.mp hread
      rw [hempty]
      exact nil_infix
    | cons lead others ih =>
      have hothers : others <:+: lead :: others := (suffix_cons lead others).isInfix
      cases skipped with
      | succ skipped => exact (ih skipped hread).trans hothers
      | zero =>
        rcases infix_cons_iff.mp hread with hinitial | hpart
        · have hstart : text <+: fromUtf8Lossy (lead :: others) := hinitial
          exact (prefix_of_prefix_fromUtf8Lossy hascii hstart).isInfix
        · exact (ih _ hpart).trans hothers
  exact hall 0 bytes h

/-! ### Cuts at byte offsets -/

/-- The cut of a text at a byte offset, absent past the end and inside a character. -/
def splitAtByte : Text → ℕ → Option (Text × Text)
  | text, 0 => some ([], text)
  | [], _ + 1 => none
  | c :: rest, offset + 1 =>
    if offset + 1 < (utf8Char c).length then none
    else (splitAtByte rest (offset + 1 - (utf8Char c).length)).map fun parts ↦
      (c :: parts.1, parts.2)

theorem splitAtByte_append (first second : Text) :
    splitAtByte (first ++ second) (utf8 first).length = some (first, second) := by
  induction first with
  | nil => simp [splitAtByte]
  | cons c rest ih =>
    have hpositive : 0 < (utf8Char c).length := length_pos_iff.mpr (utf8Char_ne_nil c)
    have hlength : (utf8 (c :: rest)).length = (utf8Char c).length + (utf8 rest).length := by simp
    obtain ⟨offset, hoffset⟩ : ∃ offset, (utf8 (c :: rest)).length = offset + 1 :=
      ⟨(utf8 (c :: rest)).length - 1, by omega⟩
    rw [hoffset, cons_append, splitAtByte, if_neg (by omega),
      show offset + 1 - (utf8Char c).length = (utf8 rest).length by omega, ih]
    rfl

end GameLauncher.Foundation
