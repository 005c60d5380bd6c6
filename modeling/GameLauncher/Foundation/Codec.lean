import GameLauncher.Foundation.Text

/-!
# Self-delimiting codecs

A codec writes values as bytes such that a decoder finds the value and what follows it. Codecs
compose: `tag` for an enumeration, `char`, `option`, `pair` and `list` for data, and `convert` for a
type that is another one in disguise. The law of each composition follows from the laws of its
parts.
-/

set_option autoImplicit false

namespace GameLauncher.Foundation

open List

/-- An encoding that a decoder can cut off from what follows it. -/
structure Codec (α : Type) where
  encode : α → Bytes
  decode : Bytes → Option (α × Bytes)
  decode_encode : ∀ value rest, decode (encode value ++ rest) = some (value, rest)

namespace Codec

variable {α β : Type}

/-- One byte for each value of an enumeration. -/
def tag (code : α → UInt8) (ofCode : UInt8 → Option α)
    (h : ∀ value, ofCode (code value) = some value) : Codec α where
  encode := fun value ↦ [code value]
  decode
    | [] => none
    | byte :: rest => (ofCode byte).map fun value ↦ (value, rest)
  decode_encode := by
    intro value rest
    simp [h]

/-- A type in disguise. -/
def convert (codec : Codec α) (plain : β → α) (back : α → β)
    (h : ∀ value, back (plain value) = value) : Codec β where
  encode := fun value ↦ codec.encode (plain value)
  decode := fun bytes ↦ (codec.decode bytes).map fun found ↦ (back found.1, found.2)
  decode_encode := by
    intro value rest
    rw [codec.decode_encode]
    simp [h]

def pair (first : Codec α) (second : Codec β) : Codec (α × β) where
  encode := fun value ↦ first.encode value.1 ++ second.encode value.2
  decode := fun bytes ↦ do
    let (left, bytes) ← first.decode bytes
    let (right, bytes) ← second.decode bytes
    return ((left, right), bytes)
  decode_encode := by
    intro value rest
    simp [append_assoc, first.decode_encode, second.decode_encode]

/-- A value that may be absent. -/
def option (codec : Codec α) : Codec (Option α) where
  encode
    | none => [0]
    | some value => 1 :: codec.encode value
  decode
    | 0 :: rest => some (none, rest)
    | 1 :: rest => (codec.decode rest).map fun found ↦ (some found.1, found.2)
    | _ => none
  decode_encode := by
    intro value rest
    cases value with
    | none => rfl
    | some value => simp [codec.decode_encode]

/-- The items of a list, each after a mark, up to a zero byte. -/
def encodeItems (codec : Codec α) : List α → Bytes
  | [] => [0]
  | item :: rest => 1 :: (codec.encode item ++ encodeItems codec rest)

/-- Read marked items, at most as many as given. -/
def decodeItems (codec : Codec α) : ℕ → Bytes → Option (List α × Bytes)
  | _, 0 :: rest => some ([], rest)
  | limit + 1, 1 :: rest => do
    let (item, rest) ← codec.decode rest
    let (items, rest) ← decodeItems codec limit rest
    return (item :: items, rest)
  | _, _ => none

theorem decodeItems_encodeItems (codec : Codec α) (items : List α) (rest : Bytes) (limit : ℕ)
    (h : items.length ≤ limit) :
    decodeItems codec limit (encodeItems codec items ++ rest) = some (items, rest) := by
  induction items generalizing limit with
  | nil => cases limit <;> rfl
  | cons item items ih =>
    cases limit with
    | zero => simp at h
    | succ limit =>
      simp only [encodeItems, cons_append, append_assoc, decodeItems,
        codec.decode_encode, Option.bind_eq_bind, Option.bind_some]
      rw [ih limit (by simpa using h)]
      rfl

theorem length_le_encodeItems (codec : Codec α) (items : List α) :
    items.length ≤ (encodeItems codec items).length := by
  induction items with
  | nil => simp
  | cons item items ih =>
    simp only [encodeItems, length_cons, length_append]
    omega

def list (codec : Codec α) : Codec (List α) where
  encode := encodeItems codec
  decode := fun bytes ↦ decodeItems codec bytes.length bytes
  decode_encode := by
    intro items rest
    refine decodeItems_encodeItems codec items rest _ ?_
    have := length_le_encodeItems codec items
    rw [length_append]
    omega

/-- A scalar value, in three bytes. -/
def char : Codec Char where
  encode := fun c ↦ leBytes 3 c.toNat
  decode
    | a :: b :: c :: rest => some (Char.ofNat (leValue [a, b, c]), rest)
    | _ => none
  decode_encode := by
    intro c rest
    have hbound := Char.toNat_lt_utf8 c
    have hvalue : leValue (leBytes 3 c.toNat) = c.toNat :=
      leValue_leBytes (by omega)
    have hlength : (leBytes 3 c.toNat).length = 3 := length_leBytes _ _
    match hbytes : leBytes 3 c.toNat, hlength with
    | [x, y, z], _ =>
      rw [hbytes] at hvalue
      simp only [cons_append, nil_append, hvalue, Char.ofNat_toNat]

def text : Codec Text := list char

end Codec

end GameLauncher.Foundation
