import Mathlib.Data.List.Lex
import Mathlib.Data.Char
import Mathlib.Order.Basic
import Mathlib.Tactic.IntervalCases
import GameLauncher.Foundation.Bytes

/-!
# Text, its encodings and hexadecimal digests

A text is a list of Unicode scalar values. Rust measures and scans a `str` by the bytes of its
UTF-8 encoding (`utf8`), C# a `string` by its UTF-16 code units (`utf16`); on ASCII text both are
the list of code points (`utf8_of_ascii`, `utf16_of_ascii`), and outside ASCII no byte and no unit
is an ASCII one (`mem_utf8Char_lt`, `mem_utf16Char_lt`).

`toHex` renders bytes as lower-case hexadecimal text and `hexBytes` reads it back. `IsHash` is the
text of a 32-byte digest, and both languages' tests for it decide the same texts
(`utf8_hash_iff`, `utf16_hash_iff`).
-/

set_option autoImplicit false

namespace GameLauncher.Foundation

open List

/-- A text: the sequence of its Unicode scalar values. -/
abbrev Text := List Char

/-- A string is used as the text of its characters. -/
instance : Coe String Text := ⟨String.toList⟩

instance : LawfulBEq Text := inferInstance

instance : LawfulBEq (Text × Text) := inferInstance

/-! ### UTF-8 and UTF-16 -/

variable {c : Char} {text : Text}

/-- The UTF-8 bytes of a scalar value. -/
def utf8Char (c : Char) : Bytes :=
  if c.toNat < 0x80 then [UInt8.ofNat c.toNat]
  else if c.toNat < 0x800 then
    [UInt8.ofNat (0xC0 + c.toNat / 64), UInt8.ofNat (0x80 + c.toNat % 64)]
  else if c.toNat < 0x10000 then
    [UInt8.ofNat (0xE0 + c.toNat / 4096), UInt8.ofNat (0x80 + c.toNat / 64 % 64),
      UInt8.ofNat (0x80 + c.toNat % 64)]
  else
    [UInt8.ofNat (0xF0 + c.toNat / 262144), UInt8.ofNat (0x80 + c.toNat / 4096 % 64),
      UInt8.ofNat (0x80 + c.toNat / 64 % 64), UInt8.ofNat (0x80 + c.toNat % 64)]

/-- The bytes of a text as Rust holds it. -/
def utf8 (text : Text) : Bytes := text.flatMap utf8Char

/-- The UTF-16 code units of a scalar value: one, or a surrogate pair. -/
def utf16Char (c : Char) : List ℕ :=
  if c.toNat < 0x10000 then [c.toNat]
  else [0xD800 + (c.toNat - 0x10000) / 1024, 0xDC00 + (c.toNat - 0x10000) % 1024]

/-- The code units of a text as C# holds it. -/
def utf16 (text : Text) : List ℕ := text.flatMap utf16Char

/-- A scalar value in the ASCII range. -/
def IsAscii (c : Char) : Prop := c.toNat < 0x80

instance (c : Char) : Decidable (IsAscii c) := inferInstanceAs (Decidable (c.toNat < 0x80))

theorem code_of_isAlphanum (h : c.isAlphanum = true) : 48 ≤ c.toNat ∧ c.toNat ≤ 57 ∨
    65 ≤ c.toNat ∧ c.toNat ≤ 90 ∨ 97 ≤ c.toNat ∧ c.toNat ≤ 122 := by
  have hbounds {low high : UInt32} (hin : (decide (low ≤ c.val) && decide (c.val ≤ high)) = true) :
      low.toNat ≤ c.toNat ∧ c.toNat ≤ high.toNat := by
    rw [Bool.and_eq_true, decide_eq_true_eq, decide_eq_true_eq] at hin
    exact hin
  rcases (Bool.or_eq_true _ _).mp h with hletter | hdigit
  · rcases (Bool.or_eq_true _ _).mp hletter with hupper | hlower
    · exact .inr (.inl (of_decide_eq_true hupper))
    · exact .inr (.inr (hbounds hlower))
  · exact .inl (hbounds hdigit)

theorem utf8Char_of_ascii (h : IsAscii c) : utf8Char c = [UInt8.ofNat c.toNat] :=
  if_pos h

theorem utf16Char_of_ascii (h : IsAscii c) : utf16Char c = [c.toNat] :=
  if_pos (lt_trans h (by decide))

theorem utf8_of_ascii (h : ∀ c ∈ text, IsAscii c) :
    utf8 text = text.map fun c ↦ UInt8.ofNat c.toNat := by
  induction text with
  | nil => rfl
  | cons c rest ih =>
    rw [utf8, flatMap_cons, utf8Char_of_ascii (h c mem_cons_self), map_cons]
    exact congrArg _ (ih fun d hd ↦ h d (mem_cons_of_mem _ hd))

theorem utf16_of_ascii (h : ∀ c ∈ text, IsAscii c) : utf16 text = text.map Char.toNat := by
  induction text with
  | nil => rfl
  | cons c rest ih =>
    rw [utf16, flatMap_cons, utf16Char_of_ascii (h c mem_cons_self), map_cons]
    exact congrArg _ (ih fun d hd ↦ h d (mem_cons_of_mem _ hd))

theorem Char.toNat_lt_utf8 (c : Char) : c.toNat < 0x110000 := by
  rcases c.valid with h | h
  · exact lt_trans h (by decide)
  · exact h.2

theorem mem_utf8Char_lt {byte : UInt8} (hmem : byte ∈ utf8Char c) (hascii : byte.toNat < 0x80) :
    IsAscii c := by
  have hbound := Char.toNat_lt_utf8 c
  by_contra hnot
  unfold IsAscii at hnot
  have hlead : ∃ value, byte = UInt8.ofNat value ∧ 0x80 ≤ value ∧ value < 0x100 := by
    unfold utf8Char at hmem
    rw [if_neg hnot] at hmem
    split_ifs at hmem <;> simp only [mem_cons, not_mem_nil, or_false] at hmem
    · rcases hmem with h | h <;> exact ⟨_, h, by omega, by omega⟩
    · rcases hmem with h | h | h <;> exact ⟨_, h, by omega, by omega⟩
    · rcases hmem with h | h | h | h <;> exact ⟨_, h, by omega, by omega⟩
  obtain ⟨value, rfl, hlow, hhigh⟩ := hlead
  rw [UInt8.toNat_ofNat'] at hascii
  omega

theorem mem_utf16Char_lt {unit : ℕ} (hmem : unit ∈ utf16Char c) (hascii : unit < 0x80) :
    IsAscii c := by
  unfold utf16Char at hmem
  split_ifs at hmem
  · rw [mem_singleton] at hmem
    rwa [IsAscii, ← hmem]
  · simp only [mem_cons, not_mem_nil, or_false] at hmem
    omega

theorem utf8Char_ne_nil (c : Char) : utf8Char c ≠ [] := by
  unfold utf8Char
  split_ifs <;> simp

theorem utf16Char_ne_nil (c : Char) : utf16Char c ≠ [] := by
  unfold utf16Char
  split_ifs <;> simp

theorem ascii_of_utf8 (h : ∀ byte ∈ utf8 text, byte.toNat < 0x80) : ∀ c ∈ text, IsAscii c := by
  intro c hc
  obtain ⟨byte, hbyte⟩ := exists_mem_of_ne_nil _ (utf8Char_ne_nil c)
  exact mem_utf8Char_lt hbyte (h byte (mem_flatMap.mpr ⟨c, hc, hbyte⟩))

theorem ascii_of_utf16 (h : ∀ unit ∈ utf16 text, unit < 0x80) : ∀ c ∈ text, IsAscii c := by
  intro c hc
  obtain ⟨unit, hunit⟩ := exists_mem_of_ne_nil _ (utf16Char_ne_nil c)
  exact mem_utf16Char_lt hunit (h unit (mem_flatMap.mpr ⟨c, hc, hunit⟩))

/-! ### Hexadecimal text -/

/-- Rust's `u8::is_ascii_hexdigit`. -/
def isAsciiHexdigit (byte : UInt8) : Bool :=
  (48 ≤ byte.toNat && byte.toNat ≤ 57) || (65 ≤ byte.toNat && byte.toNat ≤ 70) ||
    (97 ≤ byte.toNat && byte.toNat ≤ 102)

/-- Rust's `u8::is_ascii_uppercase`. -/
def isAsciiUppercase (byte : UInt8) : Bool := 65 ≤ byte.toNat && byte.toNat ≤ 90

/-- C#'s `Uri.IsHexDigit`, on a code unit. -/
def isHexDigit (unit : ℕ) : Bool :=
  (48 ≤ unit && unit ≤ 57) || (65 ≤ unit && unit ≤ 70) || (97 ≤ unit && unit ≤ 102)

/-- C#'s `char.IsUpper`, on an ASCII code unit, the only ones it is applied to here. -/
def isUpper (unit : ℕ) : Bool := 65 ≤ unit && unit ≤ 90

/-- A lower-case hexadecimal digit. -/
def IsHexChar (c : Char) : Prop :=
  (48 ≤ c.toNat ∧ c.toNat ≤ 57) ∨ (97 ≤ c.toNat ∧ c.toNat ≤ 102)

/-- The text of a 32-byte digest: 64 lower-case hexadecimal digits. -/
def IsHash (text : Text) : Prop := text.length = 64 ∧ ∀ c ∈ text, IsHexChar c

theorem IsHexChar.ascii (h : IsHexChar c) : IsAscii c := by
  unfold IsHexChar at h
  unfold IsAscii
  omega

theorem IsHash.ascii (h : IsHash text) : ∀ c ∈ text, IsAscii c :=
  fun c hc ↦ (h.2 c hc).ascii

/-- Rust's test of a hash text: 64 bytes, each a hexadecimal digit that is not upper-case. -/
theorem utf8_hash_iff (text : Text) :
    ((utf8 text).length = 64 ∧
      (utf8 text).all (fun byte ↦ isAsciiHexdigit byte && !isAsciiUppercase byte) = true) ↔
      IsHash text := by
  have hdigit (c : Char) (hc : IsAscii c) :
      (isAsciiHexdigit (UInt8.ofNat c.toNat) && !isAsciiUppercase (UInt8.ofNat c.toNat)) = true ↔
        IsHexChar c := by
    unfold IsAscii at hc
    have hvalue : (UInt8.ofNat c.toNat).toNat = c.toNat := by
      rw [UInt8.toNat_ofNat']
      omega
    simp only [isAsciiHexdigit, isAsciiUppercase, IsHexChar, hvalue, Bool.and_eq_true,
      Bool.or_eq_true, Bool.not_eq_true', decide_eq_true_eq, Bool.and_eq_false_iff,
      decide_eq_false_iff_not]
    omega
  constructor
  · rintro ⟨hlength, hall⟩
    rw [all_eq_true] at hall
    have hascii : ∀ c ∈ text, IsAscii c := ascii_of_utf8 fun byte hbyte ↦ by
      have h := hall byte hbyte
      simp only [isAsciiHexdigit, Bool.and_eq_true, Bool.or_eq_true, decide_eq_true_eq] at h
      omega
    rw [utf8_of_ascii hascii] at hlength hall
    rw [length_map] at hlength
    refine ⟨hlength, fun c hc ↦ (hdigit c (hascii c hc)).mp ?_⟩
    exact hall _ (mem_map.mpr ⟨c, hc, rfl⟩)
  · intro h
    rw [utf8_of_ascii h.ascii, length_map, all_map, all_eq_true]
    exact ⟨h.1, fun c hc ↦ (hdigit c (h.ascii c hc)).mpr (h.2 c hc)⟩

/-- C#'s test of a hash text: 64 code units, none of which is no digit or is upper-case. -/
theorem utf16_hash_iff (text : Text) :
    ((utf16 text).length = 64 ∧
      (utf16 text).any (fun unit ↦ !isHexDigit unit || isUpper unit) = false) ↔ IsHash text := by
  have hdigit (value : ℕ) : (!isHexDigit value || isUpper value) = false ↔
      (48 ≤ value ∧ value ≤ 57) ∨ (97 ≤ value ∧ value ≤ 102) := by
    simp only [isHexDigit, isUpper, Bool.or_eq_false_iff, Bool.not_eq_false', Bool.or_eq_true,
      Bool.and_eq_true, decide_eq_true_eq, Bool.and_eq_false_iff, decide_eq_false_iff_not]
    omega
  constructor
  · rintro ⟨hlength, hany⟩
    rw [any_eq_false] at hany
    have hunits : ∀ unit ∈ utf16 text,
        (48 ≤ unit ∧ unit ≤ 57) ∨ (97 ≤ unit ∧ unit ≤ 102) := fun unit hunit ↦
      (hdigit unit).mp (Bool.eq_false_iff.mpr (hany unit hunit))
    have hascii : ∀ c ∈ text, IsAscii c := ascii_of_utf16 fun unit hunit ↦ by
      have h := hunits unit hunit
      omega
    rw [utf16_of_ascii hascii] at hlength hunits
    rw [length_map] at hlength
    exact ⟨hlength, fun c hc ↦ hunits _ (mem_map.mpr ⟨c, hc, rfl⟩)⟩
  · intro h
    rw [utf16_of_ascii h.ascii, length_map, any_map, any_eq_false]
    exact ⟨h.1, fun c hc ↦ Bool.eq_false_iff.mp ((hdigit c.toNat).mpr (h.2 c hc))⟩

/-- The lower-case hexadecimal digit of a value below sixteen. -/
def hexDigit (value : ℕ) : Char :=
  if value < 10 then Char.ofNat (48 + value) else Char.ofNat (87 + value)

/-- The lower-case hexadecimal rendering of a byte string. -/
def toHex (bytes : Bytes) : Text :=
  bytes.flatMap fun byte ↦ [hexDigit (byte.toNat / 16), hexDigit (byte.toNat % 16)]

theorem hexDigit_toNat {value : ℕ} (h : value < 16) :
    (hexDigit value).toNat = if value < 10 then 48 + value else 87 + value := by
  interval_cases value <;> rfl

theorem isHexChar_hexDigit {value : ℕ} (h : value < 16) : IsHexChar (hexDigit value) := by
  unfold IsHexChar
  rw [hexDigit_toNat h]
  split_ifs <;> omega

theorem length_toHex (bytes : Bytes) : (toHex bytes).length = 2 * bytes.length := by
  induction bytes with
  | nil => rfl
  | cons byte rest ih =>
    rw [toHex, flatMap_cons, length_append]
    change 2 + (toHex rest).length = 2 * (rest.length + 1)
    omega

theorem isHexChar_of_mem_toHex {bytes : Bytes} (h : c ∈ toHex bytes) : IsHexChar c := by
  obtain ⟨byte, -, hbyte⟩ := mem_flatMap.mp h
  have hlt := byte.toNat_lt
  rcases mem_cons.mp hbyte with rfl | hbyte
  · exact isHexChar_hexDigit (by omega)
  · rw [mem_singleton.mp hbyte]
    exact isHexChar_hexDigit (by omega)

theorem isHash_toHex {bytes : Bytes} (h : bytes.length = 32) : IsHash (toHex bytes) :=
  ⟨by rw [length_toHex, h], fun _ hc ↦ isHexChar_of_mem_toHex hc⟩

theorem hexDigit_injective {first second : ℕ} (hfirst : first < 16) (hsecond : second < 16)
    (h : hexDigit first = hexDigit second) : first = second := by
  have hcode := congrArg Char.toNat h
  rw [hexDigit_toNat hfirst, hexDigit_toNat hsecond] at hcode
  split_ifs at hcode <;> omega

theorem toHex_injective {first second : Bytes} (h : toHex first = toHex second) :
    first = second := by
  induction first generalizing second with
  | nil =>
    cases second with
    | nil => rfl
    | cons byte rest => exact absurd h (by simp [toHex])
  | cons byte rest ih =>
    cases second with
    | nil => exact absurd h (by simp [toHex])
    | cons other others =>
      simp only [toHex, flatMap_cons, cons_append, nil_append, List.cons.injEq] at h
      obtain ⟨hhigh, hlow, hrest⟩ := h
      have hbyte := byte.toNat_lt
      have hother := other.toNat_lt
      have hhigh := hexDigit_injective (by omega) (by omega) hhigh
      have hlow := hexDigit_injective (by omega) (by omega) hlow
      rw [ih hrest, UInt8.toNat_inj.mp (show byte.toNat = other.toNat by omega)]

theorem utf16_lt_iff {first second : Text} (hfirst : ∀ c ∈ first, IsAscii c)
    (hsecond : ∀ c ∈ second, IsAscii c) : utf16 first < utf16 second ↔ first < second := by
  rw [utf16_of_ascii hfirst, utf16_of_ascii hsecond]
  clear hfirst hsecond
  induction first generalizing second with
  | nil => cases second <;> simp
  | cons c rest ih =>
    cases second with
    | nil => simp
    | cons d others =>
      have hlt : c.toNat < d.toNat ↔ c < d := Iff.rfl
      have heq : c.toNat = d.toNat ↔ c = d := Char.toNat_inj
      simp only [map_cons, cons_lt_cons_iff, hlt, heq, ih]

theorem forall_mem_of_all {α : Type} {property : α → Prop} [DecidablePred property] {items : List α}
    (h : items.all (fun item ↦ decide (property item)) = true) : ∀ item ∈ items, property item :=
  fun item hitem ↦ of_decide_eq_true (all_eq_true.mp h item hitem)

structure Digest where
  bytes : Bytes
  length_eq : bytes.length = 32

/-- The lower-case hexadecimal text of a digest. -/
def Digest.hex (digest : Digest) : Text := toHex digest.bytes

def Digest.zero : Digest := ⟨List.replicate 32 0, rfl⟩

theorem Digest.isHash_hex (digest : Digest) : IsHash digest.hex := isHash_toHex digest.length_eq

end GameLauncher.Foundation
