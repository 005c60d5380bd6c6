import Mathlib.Data.List.DropRight
import GameLauncher.Foundation.Text

/-!
# White space, letter case and normalization

Rust and C# agree on white space: `char::is_whitespace` on scalar values and `char.IsWhiteSpace`
on code units describe one set, so a text that is blank after `trim` is one that
`string.IsNullOrWhiteSpace` refuses (`trim_eq_nil_iff`, `isNullOrWhiteSpace_iff`).

They differ on letter case. Rust's `to_ascii_uppercase` moves the ASCII letters only, C#'s
`ToUpperInvariant` and its `OrdinalIgnoreCase` comparison move every letter by the simple case
mapping of Unicode. The mapping and the normalization form C are tables of the Unicode standard:
`Unicode` carries them with the facts about the mapping that matter for ASCII text, and
`map_upper_eq_iff` says which ASCII words the two conversions cannot tell apart.
-/

set_option autoImplicit false

namespace GameLauncher.Foundation

open List

/-! ### White space -/

/-- C#'s `char.IsWhiteSpace`, on a code unit. -/
def isWhiteSpace (unit : ℕ) : Bool :=
  (0x09 ≤ unit && unit ≤ 0x0D) || unit == 0x20 || unit == 0x85 || unit == 0xA0 ||
    unit == 0x1680 || (0x2000 ≤ unit && unit ≤ 0x200A) || unit == 0x2028 || unit == 0x2029 ||
    unit == 0x202F || unit == 0x205F || unit == 0x3000

/-- Rust's `char::is_whitespace`: the scalar values with the property `White_Space`. -/
def isWhitespace (c : Char) : Bool := isWhiteSpace c.toNat

/-- Rust's `str::trim`. -/
def trim (text : Text) : Text := (text.dropWhile isWhitespace).rdropWhile isWhitespace

/-- C#'s `string.IsNullOrWhiteSpace`, on a string that is not null. -/
def isNullOrWhiteSpace (text : Text) : Bool := (utf16 text).all isWhiteSpace

/-- A text of white space only. -/
def IsBlank (text : Text) : Prop := ∀ c ∈ text, isWhitespace c = true

instance (text : Text) : Decidable (IsBlank text) :=
  List.decidableBAll (fun c ↦ isWhitespace c = true) text

theorem trim_eq_nil_iff (text : Text) : trim text = [] ↔ IsBlank text := by
  unfold trim IsBlank
  rw [rdropWhile_eq_nil_iff]
  constructor
  · intro h c hc
    rw [← takeWhile_append_dropWhile (p := isWhitespace) (l := text)] at hc
    rcases mem_append.mp hc with hc | hc
    · exact mem_takeWhile_imp hc
    · exact h c hc
  · intro h c hc
    exact h c ((dropWhile_sublist _).subset hc)

theorem mem_of_mem_trim {text : Text} {c : Char} (h : c ∈ trim text) : c ∈ text :=
  (dropWhile_sublist _).subset ((List.rdropWhile_prefix _ _).sublist.subset h)

theorem trim_trim (text : Text) : trim (trim text) = trim text := by
  have hfront : (trim text).dropWhile isWhitespace = trim text := by
    rw [dropWhile_eq_self_iff]
    intro hlength hspace
    have hinitial : trim text <+: text.dropWhile isWhitespace := rdropWhile_prefix _ _
    have hlong : 0 < (text.dropWhile isWhitespace).length := hlength.trans_le hinitial.length_le
    have hsame : (trim text)[0] = (text.dropWhile isWhitespace)[0] := hinitial.getElem hlength
    rw [hsame] at hspace
    exact dropWhile_get_zero_not _ _ hlong hspace
  have hback : (trim text).rdropWhile isWhitespace = trim text := rdropWhile_idempotent _ _
  change ((trim text).dropWhile isWhitespace).rdropWhile isWhitespace = trim text
  rw [hfront, hback]

theorem dropWhile_append_kept {α : Type} {dropped : α → Bool} {kept : List α} (hne : kept ≠ [])
    (hkept : kept.dropWhile dropped = kept) (front back : List α) :
    (front ++ (kept ++ back)).dropWhile dropped = front.dropWhile dropped ++ (kept ++ back) := by
  induction front with
  | nil =>
    obtain ⟨first, rest, rfl⟩ := exists_cons_of_ne_nil hne
    have hfirst : ¬ dropped first = true :=
      dropWhile_eq_self_iff.mp hkept (Nat.zero_lt_succ _)
    exact dropWhile_cons_of_neg hfirst
  | cons first rest ih =>
    by_cases hfirst : dropped first = true
    · rw [cons_append, dropWhile_cons_of_pos hfirst, dropWhile_cons_of_pos hfirst, ih]
    · rw [cons_append, dropWhile_cons_of_neg hfirst, dropWhile_cons_of_neg hfirst, cons_append]

theorem trim_around {core : Text} (hne : core ≠ []) (hcore : trim core = core)
    (before after : Text) : trim (before ++ core ++ after) =
      before.dropWhile isWhitespace ++ core ++ after.rdropWhile isWhitespace := by
  have hfront : core.dropWhile isWhitespace = core := by
    refine (dropWhile_suffix _).eq_of_length (le_antisymm (length_dropWhile_le _ _) ?_)
    have hlength : (trim core).length ≤ (core.dropWhile isWhitespace).length :=
      (List.rdropWhile_prefix _ _).length_le
    rwa [hcore] at hlength
  have hback : core.reverse.dropWhile isWhitespace = core.reverse := by
    have htrim : core.rdropWhile isWhitespace = core := by
      unfold trim at hcore
      rwa [hfront] at hcore
    rw [← reverse_inj, reverse_reverse]
    exact htrim
  unfold trim
  rw [append_assoc, dropWhile_append_kept hne hfront]
  unfold List.rdropWhile
  rw [reverse_append, reverse_append, append_assoc,
    dropWhile_append_kept (reverse_ne_nil_iff.mpr hne) hback]
  simp only [reverse_append, reverse_reverse, append_assoc]

/-- What is dropped at the end of a concatenation is dropped at the end of its second part, and of
its first part when nothing of the second is left. -/
theorem rdropWhile_append {α : Type} (dropped : α → Bool) (front back : List α) :
    (front ++ back).rdropWhile dropped =
      if back.rdropWhile dropped = [] then front.rdropWhile dropped
      else front ++ back.rdropWhile dropped := by
  have hempty : (back.reverse.dropWhile dropped).isEmpty = true ↔ back.rdropWhile dropped = [] := by
    rw [List.isEmpty_iff, List.rdropWhile, List.reverse_eq_nil_iff]
  rw [List.rdropWhile, reverse_append, dropWhile_append]
  by_cases hback : back.rdropWhile dropped = []
  · rw [if_pos (hempty.mpr hback), if_pos hback]
    rfl
  · rw [if_neg fun h ↦ hback (hempty.mp h), if_neg hback, reverse_append, reverse_reverse]
    rfl

theorem rdropWhile_append_of_all {α : Type} {dropped : α → Bool} {back : List α}
    (h : ∀ item ∈ back, dropped item = true) (front : List α) :
    (front ++ back).rdropWhile dropped = front.rdropWhile dropped := by
  rw [rdropWhile_append, if_pos (rdropWhile_eq_nil_iff.mpr h)]

theorem trim_of_ends {text : Text} (hhead : ∀ c ∈ text.head?, isWhitespace c = false)
    (hlast : ∀ c ∈ text.getLast?, isWhitespace c = false) : trim text = text := by
  have hfront : text.dropWhile isWhitespace = text := by
    cases text with
    | nil => rfl
    | cons c rest => exact dropWhile_cons_of_neg (by simp [hhead c rfl])
  unfold trim
  rw [hfront, rdropWhile_eq_self_iff]
  intro hne
  simp [hlast _ (List.getLast?_eq_some_getLast hne)]

theorem trim_space_cons (text : Text) : trim (' ' :: text) = trim text := rfl

/-- White space at the end of a text does not matter to its trimming. -/
theorem trim_append_blank (text : Text) {blank : Text} (h : IsBlank blank) :
    trim (text ++ blank) = trim text := by
  unfold trim
  by_cases hempty : (text.dropWhile isWhitespace).isEmpty = true
  · rw [dropWhile_append, if_pos hempty, isEmpty_iff.mp hempty, rdropWhile_nil,
      rdropWhile_eq_nil_iff]
    exact fun c hc ↦ h c ((dropWhile_suffix _).mem hc)
  · rw [dropWhile_append, if_neg hempty, rdropWhile_append_of_all h]

theorem all_isWhiteSpace_utf16Char (c : Char) :
    (utf16Char c).all isWhiteSpace = isWhitespace c := by
  have hbound := Char.toNat_lt_utf8 c
  unfold utf16Char isWhitespace
  split_ifs with h
  · simp
  · simp only [isWhiteSpace, all_cons, all_nil, Bool.and_true]
    rw [Bool.eq_iff_iff]
    simp only [Bool.and_eq_true, Bool.or_eq_true, decide_eq_true_eq, beq_iff_eq]
    omega

theorem isNullOrWhiteSpace_iff (text : Text) : isNullOrWhiteSpace text = true ↔ IsBlank text := by
  unfold isNullOrWhiteSpace utf16 IsBlank
  simp only [all_flatMap, all_isWhiteSpace_utf16Char, all_eq_true]

/-! ### Letter case -/

/-- The tables of the Unicode standard the two languages share: normalization form C and the
simple upper-case mapping of a scalar value. On ASCII the mapping is the ASCII one, and of the
scalar values outside ASCII only the dotless i and the long s have an ASCII upper case. -/
structure Unicode where
  nfc : Text → Text
  upper : Char → Char
  upper_of_ascii : ∀ c, IsAscii c → upper c = c.toUpper
  upper_of_not_ascii : ∀ c, ¬ IsAscii c → IsAscii (upper c) → upper c = 'I' ∨ upper c = 'S'

/-- Rust's `to_ascii_uppercase`. -/
def toAsciiUppercase (text : Text) : Text := text.map Char.toUpper

/-- Rust's `to_ascii_lowercase`. -/
def toAsciiLowercase (text : Text) : Text :=
  text.map fun c ↦ if 65 ≤ c.toNat ∧ c.toNat ≤ 90 then Char.ofNat (c.toNat + 32) else c

/-- C#'s `ToUpperInvariant`. -/
def Unicode.toUpperInvariant (unicode : Unicode) (text : Text) : Text := text.map unicode.upper

/-- C#'s comparison with `StringComparison.OrdinalIgnoreCase`. -/
def Unicode.equalsIgnoreCase (unicode : Unicode) (left right : Text) : Bool :=
  unicode.toUpperInvariant left == unicode.toUpperInvariant right

/-- An ASCII character that only ASCII characters have as upper case. -/
def IsPlain (c : Char) : Prop := IsAscii c ∧ c ≠ 'I' ∧ c ≠ 'S'

instance (c : Char) : Decidable (IsPlain c) :=
  inferInstanceAs (Decidable (IsAscii c ∧ c ≠ 'I' ∧ c ≠ 'S'))

theorem toUpper_of_not_ascii {c : Char} (h : ¬ IsAscii c) : c.toUpper = c := by
  unfold IsAscii at h
  unfold Char.toUpper
  refine dif_neg fun hlower ↦ h ?_
  have hle : c.toNat ≤ ('z' : Char).toNat := hlower.2
  exact lt_of_le_of_lt hle (by decide)

theorem Unicode.upper_eq_iff (unicode : Unicode) {c d : Char} (hd : IsPlain d) :
    unicode.upper c = d ↔ c.toUpper = d := by
  by_cases hc : IsAscii c
  · rw [unicode.upper_of_ascii c hc]
  · rw [toUpper_of_not_ascii hc]
    constructor
    · rintro rfl
      rcases unicode.upper_of_not_ascii c hc hd.1 with h | h
      · exact absurd h hd.2.1
      · exact absurd h hd.2.2
    · rintro rfl
      exact absurd hd.1 hc

/-- A word of plain characters is the upper case of the same texts in both conversions. -/
theorem Unicode.toUpperInvariant_eq_iff (unicode : Unicode) {text word : Text}
    (hword : ∀ c ∈ word, IsPlain c) :
    unicode.toUpperInvariant text = word ↔ toAsciiUppercase text = word := by
  unfold Unicode.toUpperInvariant toAsciiUppercase
  induction text generalizing word with
  | nil => rfl
  | cons c rest ih =>
    cases word with
    | nil => simp
    | cons d others =>
      rw [map_cons, map_cons, List.cons.injEq, List.cons.injEq,
        unicode.upper_eq_iff (hword d mem_cons_self),
        ih fun e he ↦ hword e (mem_cons_of_mem _ he)]

theorem Unicode.equalsIgnoreCase_self (unicode : Unicode) (text : Text) :
    unicode.equalsIgnoreCase text text = true :=
  beq_self_eq_true _

end GameLauncher.Foundation
