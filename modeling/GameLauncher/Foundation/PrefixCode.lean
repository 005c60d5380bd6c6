import Mathlib.Data.List.Infix
import Mathlib.Data.Nat.Digits.Defs
import GameLauncher.Foundation.Text

/-!
# Labelled texts

A label followed by a payload can be told apart when no label is a prefix of another one
(`append_inj_of_prefixFree`). `decimal` is the payload of a number, which `parseDigits` reads back.
-/

set_option autoImplicit false

namespace GameLauncher.Foundation

open List

/-- No label is a prefix of the label of another key. -/
def PrefixFree {κ α : Type} (label : κ → List α) : Prop :=
  ∀ first second, label first <+: label second → first = second

theorem append_inj_of_prefixFree {κ α : Type} {label : κ → List α} (hfree : PrefixFree label)
    {first second : κ} {payload other : List α}
    (h : label first ++ payload = label second ++ other) :
    first = second ∧ payload = other := by
  have hfirst : label first <+: label second ++ other := h ▸ prefix_append _ _
  have hsecond : label second <+: label second ++ other := prefix_append _ _
  have hsame : first = second := by
    rcases prefix_or_prefix_of_prefix hfirst hsecond with hinitial | hinitial
    · exact hfree _ _ hinitial
    · exact (hfree _ _ hinitial).symm
  rw [hsame] at h
  exact ⟨hsame, append_cancel_left h⟩

/-! ### Numbers -/

def decimal (number : ℕ) : Text := Nat.toDigits 10 number

theorem decimal_injective : Function.Injective decimal := by
  intro first second h
  have hfirst := @Nat.ofDigitChars_ten_toDigits first
  unfold decimal at h
  rw [h, Nat.ofDigitChars_ten_toDigits] at hfirst
  exact hfirst.symm

theorem isDigit_of_mem_decimal {number : ℕ} {c : Char} (h : c ∈ decimal number) :
    c.isDigit = true := Nat.isDigit_of_mem_toDigits (by decide) (by decide) h

theorem length_decimal_le {number width : ℕ} (hwidth : 0 < width) (h : number < 10 ^ width) :
    (decimal number).length ≤ width := Nat.toDigits_length 10 number width hwidth h

def parseDigits (digits : Text) : Option ℕ :=
  if digits ≠ [] ∧ digits.all Char.isDigit = true then some (Nat.ofDigitChars 10 digits 0) else none

theorem parseDigits_decimal (number : ℕ) : parseDigits (decimal number) = some number := by
  have hdigits : decimal number ≠ [] ∧ (decimal number).all Char.isDigit = true :=
    ⟨Nat.toDigits_ne_nil, all_eq_true.mpr fun c hc ↦ isDigit_of_mem_decimal hc⟩
  rw [parseDigits, if_pos hdigits, decimal, Nat.ofDigitChars_ten_toDigits]

end GameLauncher.Foundation
