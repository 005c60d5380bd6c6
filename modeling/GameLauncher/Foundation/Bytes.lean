import Mathlib.Data.List.Basic
import Mathlib.Algebra.Order.Group.Nat
import Mathlib.Tactic.Ring
import GameLauncher.Foundation.Fallible

/-!
# Byte strings, ranges and little-endian integers

A byte string is a list of bytes. `slice` is the total range of a byte string, `getRange` the range
that is absent when out of bounds, and `indexRange` the range that panics there.

`leBytes` writes a number in a fixed number of little-endian bytes and `leValue` reads it back:
`leValue_leBytes` is the round trip, and `leValue_lt` bounds what can be read.
-/

set_option autoImplicit false

namespace GameLauncher.Foundation

open List

/-- A finite string of bytes. -/
abbrev Bytes := List UInt8

/-! ### Ranges -/

variable {bytes : Bytes} {start length width : ℕ}

/-- The `length` bytes from `start` on, or fewer at the end. -/
def slice (bytes : Bytes) (start length : ℕ) : Bytes := (bytes.drop start).take length

/-- The bytes from `start` up to `stop`, absent when the range is not inside the string. -/
def getRange (bytes : Bytes) (start stop : ℕ) : Option Bytes :=
  if start ≤ stop ∧ stop ≤ bytes.length then some (slice bytes start (stop - start)) else none

/-- The bytes from `start` up to `stop`, with a panic when the range is not inside the string. -/
def indexRange {ε : Type} (bytes : Bytes) (start stop : ℕ) : Fallible ε Bytes :=
  match getRange bytes start stop with
  | some found => .ok found
  | none => .error .panic

@[simp] theorem getRange_eq_some {result : Bytes} {stop : ℕ} :
    getRange bytes start stop = some result ↔
      (start ≤ stop ∧ stop ≤ bytes.length) ∧ slice bytes start (stop - start) = result := by
  unfold getRange
  split_ifs with h <;> simp [h]

@[simp] theorem indexRange_eq_ok {ε : Type} {result : Bytes} {stop : ℕ} :
    (indexRange bytes start stop : Fallible ε Bytes) = .ok result ↔
      (start ≤ stop ∧ stop ≤ bytes.length) ∧ slice bytes start (stop - start) = result := by
  unfold indexRange
  cases h : getRange bytes start stop with
  | none =>
    simp only [reduceCtorEq, false_iff]
    intro hrange
    rw [getRange_eq_some.mpr hrange] at h
    cases h
  | some found =>
    rw [Except.ok.injEq, ← getRange_eq_some, h, Option.some.injEq]

theorem length_slice (bytes : Bytes) (start length : ℕ) :
    (slice bytes start length).length = min length (bytes.length - start) := by
  simp [slice]

theorem length_slice_of_le (h : start + length ≤ bytes.length) :
    (slice bytes start length).length = length := by
  rw [length_slice]
  omega

theorem slice_append_left {first : Bytes} (second : Bytes) (h : start + length ≤ first.length) :
    slice (first ++ second) start length = slice first start length := by
  unfold slice
  rw [drop_append_of_le_length (by omega), take_append_of_le_length]
  rw [length_drop]
  omega

theorem slice_append_right (first second : Bytes) (offset length : ℕ) :
    slice (first ++ second) (first.length + offset) length = slice second offset length := by
  unfold slice
  rw [drop_append, drop_eq_nil_of_le (by omega)]
  simp

theorem slice_block (first block rest : Bytes) (hstart : start = first.length)
    (hlength : length = block.length) : slice (first ++ (block ++ rest)) start length = block := by
  subst hstart hlength
  have h := slice_append_right first (block ++ rest) 0 block.length
  rw [Nat.add_zero] at h
  rw [h]
  simp [slice]

theorem slice_slice {inner innerLength : ℕ} (h : inner + innerLength ≤ length) :
    slice (slice bytes start length) inner innerLength = slice bytes (start + inner) innerLength := by
  unfold slice
  rw [drop_take, drop_drop, take_take, Nat.min_eq_left (by omega)]

def blockOffset (blocks : List Bytes) (position : ℕ) : ℕ :=
  ((blocks.take position).map List.length).sum

theorem slice_flatten (blocks : List Bytes) (position start length : ℕ)
    (hposition : position < blocks.length) (hstart : start = blockOffset blocks position)
    (hlength : length = blocks[position].length) :
    slice blocks.flatten start length = blocks[position] := by
  subst hstart hlength
  induction blocks generalizing position with
  | nil => exact absurd hposition (Nat.not_lt_zero _)
  | cons block rest ih =>
    cases position with
    | zero => exact slice_block [] block rest.flatten rfl rfl
    | succ position =>
      have hoffset : blockOffset (block :: rest) (position + 1) =
          block.length + blockOffset rest position := by
        simp [blockOffset]
      rw [flatten_cons, hoffset, slice_append_right]
      exact ih position (Nat.lt_of_succ_lt_succ hposition)

theorem blockOffset_of_width {blocks : List Bytes} (hwidth : ∀ block ∈ blocks, block.length = width)
    {position : ℕ} (hposition : position ≤ blocks.length) :
    blockOffset blocks position = position * width := by
  have hlengths : (blocks.take position).map List.length = List.replicate position width := by
    rw [eq_replicate_iff, length_map, length_take, Nat.min_eq_left hposition]
    refine ⟨rfl, fun length hmem ↦ ?_⟩
    obtain ⟨block, hblock, rfl⟩ := mem_map.mp hmem
    exact hwidth block (mem_of_mem_take hblock)
  rw [blockOffset, hlengths, sum_replicate_nat]

theorem length_flatten_of_width {blocks : List Bytes}
    (hwidth : ∀ block ∈ blocks, block.length = width) :
    blocks.flatten.length = blocks.length * width := by
  rw [length_flatten, ← blockOffset_of_width hwidth le_rfl, blockOffset, take_length]

/-- Overwrite the bytes from `start` on by `source`. -/
def copyAt (bytes : Bytes) (start : ℕ) (source : Bytes) : Bytes :=
  bytes.take start ++ (source ++ bytes.drop (start + source.length))

theorem copyAt_flatten (blocks : List Bytes) (position start : ℕ) {source : Bytes}
    (hposition : position < blocks.length) (hstart : start = blockOffset blocks position)
    (hlength : source.length = blocks[position].length) :
    copyAt blocks.flatten start source = (blocks.set position source).flatten := by
  subst hstart
  induction blocks generalizing position with
  | nil => exact absurd hposition (Nat.not_lt_zero _)
  | cons block rest ih =>
    cases position with
    | zero =>
      have hblock : source.length = block.length := hlength
      simp [copyAt, blockOffset, hblock]
    | succ position =>
      have hoffset : blockOffset (block :: rest) (position + 1) =
          block.length + blockOffset rest position := by
        simp [blockOffset]
      have hrest := ih position (Nat.lt_of_succ_lt_succ hposition) hlength
      rw [set_cons_succ, flatten_cons, flatten_cons, ← hrest, hoffset]
      unfold copyAt
      rw [take_append, drop_append, take_of_length_le (by omega),
        drop_eq_nil_of_le (by omega), Nat.add_sub_cancel_left, Nat.add_assoc,
        Nat.add_sub_cancel_left]
      simp

/-! ### Little-endian integers -/

/-- The `width` little-endian bytes of a number, which is reduced modulo `256 ^ width`. -/
def leBytes : ℕ → ℕ → Bytes
  | 0, _ => []
  | width + 1, value => UInt8.ofNat value :: leBytes width (value / 256)

/-- The number that a little-endian byte string denotes. -/
def leValue : Bytes → ℕ
  | [] => 0
  | byte :: rest => byte.toNat + 256 * leValue rest

@[simp] theorem length_leBytes (width value : ℕ) : (leBytes width value).length = width := by
  induction width generalizing value with
  | zero => rfl
  | succ width ih => simp [leBytes, ih]

theorem leValue_leBytes {value : ℕ} (h : value < 256 ^ width) :
    leValue (leBytes width value) = value := by
  induction width generalizing value with
  | zero =>
    rw [pow_zero, Nat.lt_one_iff] at h
    simp [leBytes, leValue, h]
  | succ width ih =>
    have hquotient : value / 256 < 256 ^ width := by
      rw [Nat.div_lt_iff_lt_mul (by norm_num)]
      rwa [pow_succ] at h
    rw [leBytes, leValue, ih hquotient, UInt8.toNat_ofNat']
    omega

theorem leValue_lt (bytes : Bytes) : leValue bytes < 256 ^ bytes.length := by
  induction bytes with
  | nil => simp [leValue]
  | cons byte rest ih =>
    have hbyte := byte.toNat_lt
    rw [leValue, length_cons, pow_succ]
    omega

theorem leValue_slice_lt (bytes : Bytes) (start length : ℕ) :
    leValue (slice bytes start length) < 256 ^ length := by
  refine lt_of_lt_of_le (leValue_lt _) (Nat.pow_le_pow_right (by norm_num) ?_)
  rw [length_slice]
  exact Nat.min_le_left _ _

end GameLauncher.Foundation
