import Mathlib.Data.List.Sort
import GameLauncher.Foundation.Text

/-!
# The physical pack format

`docs/storage-pack-format.md` and `launcher-packs`. A pack is a 64-byte header, the concatenated
encoded chunks, one 96-byte index entry for each chunk in order of encoded hash, and a 72-byte
footer that repeats the bounds and carries the digest of the index.

`WellFormedPack` says in one place what it means for a byte string to be a pack with a given index.
The readers are proved to accept exactly the well-formed packs and the writers to produce them, so
the three meet in this definition.

The zero-length chunk is the reason for `NonOverlapping` to be stated on the index sorted by offset:
an empty chunk shares its offset with its successor, and only the stable order of the sort makes the
scan accept it.
-/

set_option autoImplicit false

namespace GameLauncher.Packs

open Foundation Fallible List

/-! ### Constants -/

/-- `b"LGRPACK1"`. -/
def headerMagic : Bytes := [76, 71, 82, 80, 65, 67, 75, 49]

/-- `b"LGRPFTR1"`. -/
def footerMagic : Bytes := [76, 71, 82, 80, 70, 84, 82, 49]

def formatVersion : ℕ := 1
def headerSize : ℕ := 64
def entrySize : ℕ := 96
def footerSize : ℕ := 72
def compressionZstd : ℕ := 1
def defaultTargetBytes : ℕ := 512 * 1024 * 1024
def defaultMinBytes : ℕ := 256 * 1024 * 1024
def defaultMaxBytes : ℕ := 1024 * 1024 * 1024
def maxPackBytes : ℕ := 8 * 1024 * 1024 * 1024
def maxDeclaredChunkBytes : ℕ := 2 * 1024 * 1024 * 1024

/-! ### Errors and entries -/

/-- The `PackError`s of building, writing, parsing and reading a pack. -/
inductive PackError
  | io (detail : String)
  | configuration (detail : String)
  | truncated
  | invalidMagic
  | unsupportedVersion (version : ℕ)
  | invalidHeader (detail : String)
  | invalidFooter (detail : String)
  | invalidIndex (detail : String)
  | packHashMismatch (expected actual : Text)
  | chunkHashMismatch (expected actual : Text)
  | chunkNotFound (encodedHash : Text)
  | unsupportedCompression (compression : ℕ)
  deriving DecidableEq, Repr

/-- An outcome of the pack crate. -/
abbrev PackResult (α : Type) := Fallible PackError α

/-- One record of the pack index. -/
structure PackEntry where
  encodedHash : Text
  rawHash : Text
  offset : ℕ
  encodedLength : ℕ
  rawLength : ℕ
  compression : ℕ
  flags : ℕ
  deriving DecidableEq, Repr

/-- The end of the chunk's bytes, checked against overflow. -/
def PackEntry.encodedEnd (entry : PackEntry) : PackResult ℕ :=
  okOr (checkedAdd entry.offset entry.encodedLength) (.invalidIndex "chunk offset overflows")

/-! ### Integers and hashes -/

def readUint (width : ℕ) (bytes : Bytes) (offset : ℕ) : Option ℕ := do
  let stop ← checkedAdd offset width
  let found ← getRange bytes offset stop
  pure (leValue found)

def readU16 (bytes : Bytes) (offset : ℕ) : Option ℕ := readUint 2 bytes offset
def readU32 (bytes : Bytes) (offset : ℕ) : Option ℕ := readUint 4 bytes offset
def readU64 (bytes : Bytes) (offset : ℕ) : Option ℕ := readUint 8 bytes offset

/-- The integer of the given width at an offset inside the byte string. -/
def uintAt (width : ℕ) (bytes : Bytes) (offset : ℕ) : ℕ := leValue (slice bytes offset width)

theorem readUint_eq_some {width : ℕ} {bytes : Bytes} {offset value : ℕ} :
    readUint width bytes offset = some value ↔
      (offset + width < u64Size ∧ offset + width ≤ bytes.length) ∧
        uintAt width bytes offset = value := by
  simp only [readUint, Option.bind_eq_bind, Option.bind_eq_some_iff, checkedAdd_eq_some,
    getRange_eq_some, Option.pure_def, Option.some.injEq, uintAt]
  constructor
  · rintro ⟨stop, ⟨hsize, rfl⟩, found, ⟨⟨-, hlength⟩, rfl⟩, rfl⟩
    rw [Nat.add_sub_cancel_left]
    exact ⟨⟨hsize, hlength⟩, rfl⟩
  · rintro ⟨⟨hsize, hlength⟩, rfl⟩
    refine ⟨offset + width, ⟨hsize, rfl⟩, _, ⟨⟨Nat.le_add_right _ _, hlength⟩, rfl⟩, ?_⟩
    rw [Nat.add_sub_cancel_left]

/-- `validate_hash`: 64 bytes, each a hexadecimal digit that is not upper-case. -/
def validateHash (field : String) (value : Text) : PackResult Unit :=
  rejectIf
    (¬ ((utf8 value).length = 64 ∧
      (utf8 value).all (fun byte ↦ isAsciiHexdigit byte && !isAsciiUppercase byte) = true))
    (.configuration s!"{field} hash must be 64 lowercase hexadecimal characters")

@[simp] theorem validateHash_eq_ok {field : String} {value : Text} {u : Unit} :
    validateHash field value = .ok u ↔ IsHash value := by
  rw [validateHash, rejectIf_eq_ok, not_not, utf8_hash_iff]

/-- `hex_value`: the value of a lower-case hexadecimal digit. -/
def hexValue (value : UInt8) : PackResult UInt8 :=
  if 48 ≤ value.toNat ∧ value.toNat ≤ 57 then .ok (value - 48)
  else if 97 ≤ value.toNat ∧ value.toNat ≤ 102 then .ok (value - 97 + 10)
  else .error (.error (.configuration "hash must be lowercase hexadecimal"))

/-- The loop of `decode_hash` over the pairs of digits. -/
def decodePairs : Bytes → PackResult Bytes
  | high :: low :: rest => do
    let first ← hexValue high
    let second ← hexValue low
    let decoded ← decodePairs rest
    pure ((first <<< 4 ||| second) :: decoded)
  | _ => pure []

/-- `decode_hash`: the 32 bytes of a hash text. -/
def decodeHash (value : Text) : PackResult Bytes := do
  validateHash "hash" value
  decodePairs (utf8 value)

/-- `read_hash`: the text of the 32 bytes at an offset. -/
def readHash (bytes : Bytes) (offset : ℕ) : PackResult Text := do
  let stop ← okOr (checkedAdd offset 32) .truncated
  let value ← okOr (getRange bytes offset stop) .truncated
  pure (toHex value)

theorem readHash_eq_ok {bytes : Bytes} {offset : ℕ} {text : Text} :
    readHash bytes offset = .ok text ↔
      (offset + 32 < u64Size ∧ offset + 32 ≤ bytes.length) ∧ toHex (slice bytes offset 32) = text := by
  simp only [readHash, bind_eq_ok, okOr_eq_ok, checkedAdd_eq_some, getRange_eq_some, pure_eq_ok]
  constructor
  · rintro ⟨stop, ⟨hsize, rfl⟩, value, ⟨⟨-, hlength⟩, rfl⟩, rfl⟩
    rw [Nat.add_sub_cancel_left]
    exact ⟨⟨hsize, hlength⟩, rfl⟩
  · rintro ⟨⟨hsize, hlength⟩, rfl⟩
    refine ⟨offset + 32, ⟨hsize, rfl⟩, _, ⟨⟨Nat.le_add_right _ _, hlength⟩, rfl⟩, ?_⟩
    rw [Nat.add_sub_cancel_left]

theorem hexValue_of_isHexChar {c : Char} (h : IsHexChar c) :
    ∃ value : UInt8, hexValue (UInt8.ofNat c.toNat) = .ok value ∧ value.toNat < 16 ∧
      hexDigit value.toNat = c := by
  have hrange : ∀ code : Fin 128,
      ((48 ≤ code.val ∧ code.val ≤ 57) ∨ (97 ≤ code.val ∧ code.val ≤ 102)) →
      ∃ value : Fin 16, hexValue (UInt8.ofNat code.val) = .ok (UInt8.ofNat value.val) ∧
        hexDigit value.val = Char.ofNat code.val := by
    decide
  have hascii := h.ascii
  obtain ⟨value, hvalue, hdigit⟩ := hrange ⟨c.toNat, hascii⟩ h
  have hnat : (UInt8.ofNat value.val).toNat = value.val := by
    rw [UInt8.toNat_ofNat']
    omega
  refine ⟨UInt8.ofNat value.val, hvalue, ?_, ?_⟩
  · rw [hnat]
    exact value.isLt
  · rw [hnat, hdigit, Char.ofNat_toNat]

theorem toNat_nibbles {first second : UInt8} (hfirst : first.toNat < 16)
    (hsecond : second.toNat < 16) :
    (first <<< 4 ||| second).toNat = 16 * first.toNat + second.toNat := by
  have hall : ∀ a b : Fin 16,
      (UInt8.ofNat a.val <<< 4 ||| UInt8.ofNat b.val).toNat = 16 * a.val + b.val := by
    decide
  have h := hall ⟨first.toNat, hfirst⟩ ⟨second.toNat, hsecond⟩
  simpa only [UInt8.ofNat_toNat] using h

theorem decodePairs_hex (count : ℕ) {text : Text} (hlength : text.length = 2 * count)
    (hhex : ∀ c ∈ text, IsHexChar c) :
    ∃ bytes, decodePairs (text.map fun c ↦ UInt8.ofNat c.toNat) = .ok bytes ∧
      bytes.length = count ∧ toHex bytes = text := by
  induction count generalizing text with
  | zero =>
    have hnil : text = [] := length_eq_zero_iff.mp hlength
    subst hnil
    exact ⟨[], rfl, rfl, rfl⟩
  | succ count ih =>
    obtain ⟨high, low, rest, rfl⟩ : ∃ high low rest, text = high :: low :: rest := by
      match text, hlength with
      | high :: low :: rest, _ => exact ⟨high, low, rest, rfl⟩
    obtain ⟨first, hfirst, hfirstLt, hfirstDigit⟩ :=
      hexValue_of_isHexChar (hhex high mem_cons_self)
    obtain ⟨second, hsecond, hsecondLt, hsecondDigit⟩ :=
      hexValue_of_isHexChar (hhex low (mem_cons_of_mem _ mem_cons_self))
    have hrest : rest.length = 2 * count := by
      simp only [length_cons] at hlength
      omega
    obtain ⟨bytes, hbytes, hcount, htext⟩ := ih hrest
      fun c hc ↦ hhex c (mem_cons_of_mem _ (mem_cons_of_mem _ hc))
    refine ⟨(first <<< 4 ||| second) :: bytes, ?_, by rw [length_cons, hcount], ?_⟩
    · simp only [map_cons, decodePairs, bind_eq_ok, pure_eq_ok]
      exact ⟨first, hfirst, second, hsecond, bytes, hbytes, rfl⟩
    · rw [toHex, flatMap_cons, toNat_nibbles hfirstLt hsecondLt]
      have hhigh : (16 * first.toNat + second.toNat) / 16 = first.toNat := by omega
      have hlow : (16 * first.toNat + second.toNat) % 16 = second.toNat := by omega
      rw [hhigh, hlow, hfirstDigit, hsecondDigit]
      change high :: low :: toHex bytes = _
      rw [htext]

theorem decodeHash_of_isHash {value : Text} (h : IsHash value) :
    ∃ bytes, decodeHash value = .ok bytes ∧ bytes.length = 32 ∧ toHex bytes = value := by
  obtain ⟨bytes, hbytes, hlength, htext⟩ := decodePairs_hex 32 h.1 h.2
  refine ⟨bytes, ?_, hlength, htext⟩
  simp only [decodeHash, bind_eq_ok, validateHash_eq_ok]
  exact ⟨(), h, by rw [utf8_of_ascii h.ascii, hbytes]⟩

/-! ### Well-formed packs -/

/-- The index record in a 96-byte range. -/
def entryAt (record : Bytes) : PackEntry where
  encodedHash := toHex (slice record 0 32)
  rawHash := toHex (slice record 32 32)
  offset := uintAt 8 record 64
  encodedLength := uintAt 8 record 72
  rawLength := uintAt 8 record 80
  compression := uintAt 4 record 88
  flags := uintAt 4 record 92

/-- The bounds of one index record: declared lengths, compression and data region. -/
structure EntryBounds (indexOffset : ℕ) (entry : PackEntry) : Prop where
  rawLength_le : entry.rawLength ≤ maxDeclaredChunkBytes
  encodedLength_le : entry.encodedLength ≤ maxDeclaredChunkBytes
  compression_eq : entry.compression = compressionZstd
  le_offset : headerSize ≤ entry.offset
  end_le : entry.offset + entry.encodedLength ≤ indexOffset

/-- The stable sort of an index by offset. -/
def sortByOffset (entries : List PackEntry) : List PackEntry :=
  entries.insertionSort fun left right ↦ left.offset ≤ right.offset

/-- No chunk reaches into its successor in the order of offsets. -/
def NonOverlapping (entries : List PackEntry) : Prop :=
  (sortByOffset entries).IsChain fun left right ↦ left.offset + left.encodedLength ≤ right.offset

/-- A byte string is a pack with the given index. -/
structure WellFormedPack (hash : Bytes → Digest) (bytes : Bytes) (entries : List PackEntry) :
    Prop where
  size_le : headerSize + footerSize ≤ bytes.length
  le_maxPackBytes : bytes.length ≤ maxPackBytes
  header_magic : slice bytes 0 8 = headerMagic
  header_version : uintAt 2 bytes 8 = formatVersion
  header_length : uintAt 4 bytes 12 = headerSize
  entry_count : uintAt 8 bytes 16 = entries.length
  data_offset : uintAt 8 bytes 24 = headerSize
  index_length : uintAt 8 bytes 40 = entries.length * entrySize
  footer_magic : slice bytes (bytes.length - footerSize) 8 = footerMagic
  footer_version : uintAt 2 bytes (bytes.length - footerSize + 8) = formatVersion
  footer_index_offset : uintAt 8 bytes (bytes.length - footerSize + 12) = uintAt 8 bytes 32
  footer_index_length :
    uintAt 8 bytes (bytes.length - footerSize + 20) = entries.length * entrySize
  footer_entry_count : uintAt 8 bytes (bytes.length - footerSize + 28) = entries.length
  le_index_offset : headerSize ≤ uintAt 8 bytes 32
  index_end : uintAt 8 bytes 32 + entries.length * entrySize = bytes.length - footerSize
  index_digest : slice bytes (bytes.length - footerSize + 40) 32 =
    (hash (slice bytes (uintAt 8 bytes 32) (entries.length * entrySize))).bytes
  entry_eq : ∀ (position : ℕ) (h : position < entries.length), entries[position] =
    entryAt (slice bytes (uintAt 8 bytes 32 + position * entrySize) entrySize)
  sorted : entries.Pairwise fun left right ↦ left.encodedHash < right.encodedHash
  bounds : ∀ entry ∈ entries, EntryBounds (uintAt 8 bytes 32) entry
  nonOverlapping : NonOverlapping entries

end GameLauncher.Packs
