import GameLauncher.Packs.Builder

/-!
# The client's pack reader

`PhysicalPackReader` of `Launcher.Downloads`: the strict reader of the launcher for the packs of
`launcher-packs`. Integers are read from the same offsets as in `PackReader`, but spans, casts to
`int`, the stable `OrderBy`, the zipped overlap scan, ordinal comparison of UTF-16 strings and the
dictionary lookup are those of C#.

`PhysicalPackReader.parse_eq_ok` shows that below the size limit of a C# array the reader accepts
exactly the well-formed packs, which is what `PackReader.parse_eq_ok` says of the Rust reader, and
`packReaders_agree` puts the two together.
-/

set_option autoImplicit false

namespace GameLauncher.Packs

open Foundation Fallible List PackReader

/-! ### Exceptions, spans and casts -/

variable {bytes : Bytes} {u : Unit}

/-- The exceptions of `PhysicalPackReader`. -/
inductive PackException
  | invalidData (message : String)
  | overflow
  | argumentOutOfRange
  | argument
  | keyNotFound (message : String)
  deriving DecidableEq, Repr

/-- `int.MaxValue`. -/
def intMaxValue : ℕ := 2 ^ 31 - 1

def asSpan (bytes : Bytes) (start length : ℕ) : Except PackException Bytes :=
  orThrow (getRange bytes start (start + length)) .argumentOutOfRange

/-- The checked cast of an unsigned 64-bit integer to `int`. -/
def checkedInt (value : ℕ) : Except PackException ℕ :=
  orThrow (if value ≤ intMaxValue then some value else none) .overflow

def readUIntLittleEndian (width : ℕ) (bytes : Bytes) (offset : ℕ) : Except PackException ℕ := do
  let span ← asSpan bytes offset width
  pure (leValue span)

def readUInt16 (bytes : Bytes) (offset : ℕ) : Except PackException ℕ :=
  readUIntLittleEndian 2 bytes offset
def readUInt32 (bytes : Bytes) (offset : ℕ) : Except PackException ℕ :=
  readUIntLittleEndian 4 bytes offset
def readUInt64 (bytes : Bytes) (offset : ℕ) : Except PackException ℕ :=
  readUIntLittleEndian 8 bytes offset

/-- `ValidateHash` of the client. -/
def validateClientHash (value : Text) : Except PackException Unit :=
  throwIf
    (¬ ((utf16 value).length = 64 ∧
      (utf16 value).any (fun unit ↦ !isHexDigit unit || isUpper unit) = false))
    (.invalidData ("Invalid lowercase BLAKE3 hash " ++ String.ofList value ++ "."))

@[simp] theorem asSpan_eq_ok {result : Bytes} {start length : ℕ} :
    asSpan bytes start length = .ok result ↔
      start + length ≤ bytes.length ∧ slice bytes start length = result := by
  simp only [asSpan, orThrow_eq_ok, getRange_eq_some, Nat.le_add_right, true_and,
    Nat.add_sub_cancel_left]

@[simp] theorem checkedInt_eq_ok {value result : ℕ} :
    checkedInt value = .ok result ↔ value ≤ intMaxValue ∧ value = result := by
  unfold checkedInt
  split_ifs with h <;> simp [h]

@[simp] theorem readUIntLittleEndian_eq_ok {width : ℕ} {offset value : ℕ} :
    readUIntLittleEndian width bytes offset = .ok value ↔
      offset + width ≤ bytes.length ∧ uintAt width bytes offset = value := by
  simp only [readUIntLittleEndian, bind_eq_ok, asSpan_eq_ok, pure_eq_ok, uintAt, and_assoc,
    exists_and_left, exists_eq_left']

@[simp] theorem validateClientHash_eq_ok {value : Text} :
    validateClientHash value = .ok u ↔ IsHash value := by
  rw [validateClientHash, throwIf_eq_ok, not_not, utf16_hash_iff]

/-! ### Parsing -/

/-- A parsed pack: the entries in order and the dictionary from encoded hash to entry. -/
structure PhysicalPackReader where
  bytes : Bytes
  entries : List PackEntry
  dictionary : List (Text × PackEntry)
  deriving DecidableEq, Repr

namespace PhysicalPackReader

/-- The header checks of `ParseCore`. -/
def parseHeader (bytes : Bytes) : Except PackException PackReader.PackHeader := do
  throwIf (bytes.length < headerSize + footerSize) (.invalidData "Pack is truncated.")
  throwIf (maxPackBytes < bytes.length) (.invalidData "Pack exceeds the format size limit.")
  let magic ← asSpan bytes 0 8
  throwIf (magic ≠ headerMagic) (.invalidData "Pack header magic is invalid.")
  let version ← readUInt16 bytes 8
  throwIf (version ≠ 1) (.invalidData s!"Unsupported pack format version {version}.")
  let headerLength ← readUInt32 bytes 12
  throwIf (headerLength ≠ headerSize) (.invalidData "Pack header length is invalid.")
  let entryCount ← readUInt64 bytes 16
  let dataOffset ← readUInt64 bytes 24
  let indexOffset ← readUInt64 bytes 32
  let indexLength ← readUInt64 bytes 40
  throwIf (dataOffset ≠ headerSize) (.invalidData "Pack data offset is invalid.")
  throwIf (intMaxValue < entryCount) (.invalidData "Pack index length is invalid.")
  let expectedLength ← orThrow (checkedMul entryCount entrySize) .overflow
  throwIf (expectedLength ≠ indexLength) (.invalidData "Pack index length is invalid.")
  pure { entryCount, dataOffset, indexOffset, indexLength }

/-- The footer and index checks of `ParseCore`. -/
def parseFooter (hash : Bytes → Digest) (bytes : Bytes) (header : PackReader.PackHeader) :
    Except PackException Unit := do
  let footerOffset := bytes.length - footerSize
  let magic ← asSpan bytes footerOffset 8
  throwIf (magic ≠ footerMagic) (.invalidData "Pack footer magic is invalid.")
  let versionOffset ← checkedInt (footerOffset + 8)
  let version ← readUInt16 bytes versionOffset
  throwIf (version ≠ 1) (.invalidData "Pack footer version is invalid.")
  let offsetOffset ← checkedInt (footerOffset + 12)
  let footerIndexOffset ← readUInt64 bytes offsetOffset
  throwIf (footerIndexOffset ≠ header.indexOffset)
    (.invalidData "Pack footer does not match its header.")
  let lengthOffset ← checkedInt (footerOffset + 20)
  let footerIndexLength ← readUInt64 bytes lengthOffset
  throwIf (footerIndexLength ≠ header.indexLength)
    (.invalidData "Pack footer does not match its header.")
  let countOffset ← checkedInt (footerOffset + 28)
  let footerEntryCount ← readUInt64 bytes countOffset
  throwIf (footerEntryCount ≠ header.entryCount)
    (.invalidData "Pack footer does not match its header.")
  let indexEnd ← orThrow (checkedAdd header.indexOffset header.indexLength) .overflow
  throwIf (indexEnd ≠ footerOffset ∨ header.indexOffset < header.dataOffset)
    (.invalidData "Pack index bounds are invalid.")
  throwIf (intMaxValue < header.indexOffset ∨ intMaxValue < header.indexLength)
    (.invalidData "Pack index is too large.")
  let indexBytes ← asSpan bytes header.indexOffset header.indexLength
  let digestOffset ← checkedInt (footerOffset + 40)
  let expectedIndexHash ← asSpan bytes digestOffset 32
  throwIf ((hash indexBytes).hex ≠ toHex expectedIndexHash)
    (.invalidData "Pack index digest mismatch.")

/-- The body of the entry loop of `ParseCore`. -/
def parseEntry (bytes : Bytes) (dataOffset indexOffset position : ℕ)
    (previousHash : Option Text) : Except PackException PackEntry := do
  let scaled ← orThrow (checkedMul position entrySize) .overflow
  let sum ← orThrow (checkedAdd indexOffset scaled) .overflow
  let entryStart ← checkedInt sum
  let encodedBytes ← asSpan bytes entryStart 32
  let rawBytes ← asSpan bytes (entryStart + 32) 32
  let encodedHash := toHex encodedBytes
  let rawHash := toHex rawBytes
  validateClientHash encodedHash
  validateClientHash rawHash
  let offset ← readUInt64 bytes (entryStart + 64)
  let encodedLength ← readUInt64 bytes (entryStart + 72)
  let rawLength ← readUInt64 bytes (entryStart + 80)
  let compression ← readUInt32 bytes (entryStart + 88)
  let flags ← readUInt32 bytes (entryStart + 92)
  let entry : PackEntry :=
    { encodedHash, rawHash, offset, encodedLength, rawLength, compression, flags }
  throwIf (maxDeclaredChunkBytes < entry.rawLength ∨ maxDeclaredChunkBytes < entry.encodedLength)
    (.invalidData "Pack entry declares an oversized chunk.")
  throwIf (entry.compression ≠ compressionZstd)
    (.invalidData s!"Unsupported pack compression {compression}.")
  throwIf (∃ previous ∈ previousHash, ¬ utf16 previous < utf16 entry.encodedHash)
    (.invalidData "Pack entries are not strictly sorted.")
  throwIf (entry.offset < dataOffset) (.invalidData "Pack entry is outside the data region.")
  let stop ← orThrow (checkedAdd entry.offset entry.encodedLength) .overflow
  throwIf (indexOffset < stop) (.invalidData "Pack entry is outside the data region.")
  pure entry

/-- The entry loop of `ParseCore`. -/
def parseEntries (bytes : Bytes) (dataOffset indexOffset : ℕ) :
    ℕ → ℕ → Option Text → Except PackException (List PackEntry)
  | 0, _, _ => pure []
  | remaining + 1, position, previousHash => do
    let entry ← parseEntry bytes dataOffset indexOffset position previousHash
    let rest ← parseEntries bytes dataOffset indexOffset remaining (position + 1)
      (some entry.encodedHash)
    pure (entry :: rest)

/-- The overlap loop over the zipped pairs of neighbours. -/
def checkPairs : List (PackEntry × PackEntry) → Except PackException Unit
  | [] => pure ()
  | (first, second) :: rest => do
    let stop ← orThrow (checkedAdd first.offset first.encodedLength) .overflow
    throwIf (second.offset < stop) (.invalidData "Pack entries overlap.")
    checkPairs rest

/-- `ToDictionary`: a second entry with the same key is an `ArgumentException`. -/
def toDictionary : List PackEntry → List (Text × PackEntry) →
    Except PackException (List (Text × PackEntry))
  | [], dictionary => pure dictionary
  | entry :: rest, dictionary => do
    throwIf ((dictionary.lookup entry.encodedHash).isSome = true) .argument
    toDictionary rest (dictionary ++ [(entry.encodedHash, entry)])

def parseCore (hash : Bytes → Digest) (bytes : Bytes) (expectedPackHash : Option Text) :
    Except PackException PhysicalPackReader := do
  let header ← parseHeader bytes
  parseFooter hash bytes header
  let _ ← checkedInt header.entryCount
  let entries ← parseEntries bytes header.dataOffset header.indexOffset header.entryCount 0 none
  checkPairs ((sortByOffset entries).zip ((sortByOffset entries).drop 1))
  let dictionary ← toDictionary entries []
  match expectedPackHash with
  | none => pure ()
  | some expected => do
    validateClientHash expected
    throwIf ((hash bytes).hex ≠ expected) (.invalidData "Pack identity digest mismatch.")
  pure { bytes, entries, dictionary }

/-- `Parse`: overflow and range exceptions become `InvalidDataException`. -/
def parse (hash : Bytes → Digest) (bytes : Bytes) (expectedPackHash : Option Text) :
    Except PackException PhysicalPackReader :=
  match parseCore hash bytes expectedPackHash with
  | .error .overflow => .error (.invalidData "Pack numeric fields overflowed.")
  | .error .argumentOutOfRange => .error (.invalidData "Pack bounds are invalid.")
  | outcome => outcome

def readEncoded (hash : Bytes → Digest) (reader : PhysicalPackReader) (encodedHash : Text) :
    Except PackException Bytes := do
  validateClientHash encodedHash
  let entry ← orThrow (reader.dictionary.lookup encodedHash)
    (.keyNotFound ("Pack does not contain " ++ String.ofList encodedHash ++ "."))
  let start ← checkedInt entry.offset
  let length ← checkedInt entry.encodedLength
  let chunk ← asSpan reader.bytes start length
  throwIf ((hash chunk).hex ≠ entry.encodedHash)
    (.invalidData "Encoded chunk hash verification failed.")
  pure chunk

/-! ### What the client accepts -/

variable {entries : List PackEntry} {hash : Bytes → Digest} {reader : PhysicalPackReader}

/-- The client reads a record exactly where and when the Rust reader does. -/
theorem parseEntry_eq_ok {indexOffset position : ℕ} {previousHash : Option Text} {entry : PackEntry}
    (hlength : bytes.length ≤ intMaxValue) (hprevious : ∀ previous ∈ previousHash, IsHash previous)
    :
    parseEntry bytes headerSize indexOffset position previousHash = .ok entry ↔
      indexOffset + position * entrySize + entrySize ≤ bytes.length ∧
        entry = entryAt (slice bytes (indexOffset + position * entrySize) entrySize) ∧
        (∀ previous ∈ previousHash, previous < entry.encodedHash) ∧
        EntryBounds indexOffset entry := by
  have hint : intMaxValue < u64Size := by decide
  have hentrySize : entrySize = 96 := rfl
  have hfield (inner width : ℕ) (h : inner + width ≤ entrySize) :
      slice (slice bytes (indexOffset + position * entrySize) entrySize) inner width =
        slice bytes (indexOffset + position * entrySize + inner) width := slice_slice h
  have hentry : entryAt (slice bytes (indexOffset + position * entrySize) entrySize) =
      { encodedHash := toHex (slice bytes (indexOffset + position * entrySize) 32)
        rawHash := toHex (slice bytes (indexOffset + position * entrySize + 32) 32)
        offset := uintAt 8 bytes (indexOffset + position * entrySize + 64)
        encodedLength := uintAt 8 bytes (indexOffset + position * entrySize + 72)
        rawLength := uintAt 8 bytes (indexOffset + position * entrySize + 80)
        compression := uintAt 4 bytes (indexOffset + position * entrySize + 88)
        flags := uintAt 4 bytes (indexOffset + position * entrySize + 92) } := by
    simp only [entryAt, uintAt]
    rw [hfield 0 32 (by decide), hfield 32 32 (by decide), hfield 64 8 (by decide),
      hfield 72 8 (by decide), hfield 80 8 (by decide), hfield 88 4 (by decide),
      hfield 92 4 (by decide), Nat.add_zero]
  have horder (current : Bytes) : (∃ previous ∈ previousHash,
      utf16 (toHex current) ≤ utf16 previous) ↔
        ¬ ∀ previous ∈ previousHash, previous < toHex current := by
    have hcurrent : ∀ c ∈ toHex current, IsAscii c := fun c hc ↦ (isHexChar_of_mem_toHex hc).ascii
    simp only [not_forall, exists_prop]
    refine exists_congr fun previous ↦ and_congr_right fun hmem ↦ ?_
    rw [← not_lt, utf16_lt_iff (hprevious previous hmem).ascii hcurrent]
  simp only [parseEntry, bind_eq_ok, orThrow_eq_ok, checkedAdd_eq_some, checkedMul_eq_some,
    checkedInt_eq_ok, asSpan_eq_ok, readUInt64, readUInt32, readUIntLittleEndian_eq_ok,
    validateClientHash_eq_ok, throwIf_eq_ok, pure_eq_ok, and_assoc, exists_and_left,
    exists_eq_left', exists_const, not_or, not_lt, not_not, ne_eq, hentry]
  constructor
  · rintro ⟨-, -, -, -, -, -, -, -, -, -, -, hinside, hraw, hencoded, hcompression, hsorted,
      hstart, -, hend, rfl⟩
    have hsorted := not_not.mp (fun h ↦ hsorted ((horder _).mpr h))
    exact ⟨by omega, rfl, hsorted, hraw, hencoded, hcompression, hstart, hend⟩
  · rintro ⟨hinside, rfl, hsorted, hbounds⟩
    have hend := hbounds.end_le
    refine ⟨by omega, by omega, by omega, by omega, by omega, ?_, ?_, by omega, by omega, by omega,
      by omega, by omega, hbounds.rawLength_le, hbounds.encodedLength_le, hbounds.compression_eq,
      ?_, hbounds.le_offset, ?_, hend, rfl⟩
    · exact isHash_toHex (length_slice_of_le (by omega))
    · exact isHash_toHex (length_slice_of_le (by omega))
    · exact fun h ↦ (horder _).mp h hsorted
    · simp only at hend
      omega

theorem parseEntries_iff {indexOffset remaining position : ℕ} {previousHash : Option Text}
    (hlength : bytes.length ≤ intMaxValue) (hindex : indexOffset < u64Size)
    (hprevious : ∀ previous ∈ previousHash, IsHash previous) :
    parseEntries bytes headerSize indexOffset remaining position previousHash = .ok entries ↔
      PackReader.parseEntries bytes headerSize indexOffset remaining position previousHash =
        .ok entries := by
  have hint : intMaxValue < u64Size := by decide
  induction remaining generalizing position previousHash entries with
  | zero => simp only [parseEntries, PackReader.parseEntries, pure_eq_ok]
  | succ remaining ih =>
    simp only [parseEntries, PackReader.parseEntries, bind_eq_ok, pure_eq_ok,
      parseEntry_eq_ok hlength hprevious, PackReader.parseEntry_eq_ok hindex]
    refine exists_congr fun entry ↦ ?_
    constructor
    · rintro ⟨⟨hinside, hentry, hrest⟩, others, hothers, rfl⟩
      refine ⟨⟨by omega, hinside, hentry, hrest⟩, others, (ih ?_).mp hothers, rfl⟩
      rintro previous ⟨⟩
      rw [hentry]
      exact isHash_toHex (length_slice_of_le (le_of_le_of_eq (by decide)
        (length_slice_of_le hinside).symm))
    · rintro ⟨⟨-, hinside, hentry, hrest⟩, others, hothers, rfl⟩
      refine ⟨⟨hinside, hentry, hrest⟩, others, (ih ?_).mpr hothers, rfl⟩
      rintro previous ⟨⟩
      rw [hentry]
      exact isHash_toHex (length_slice_of_le (le_of_le_of_eq (by decide)
        (length_slice_of_le hinside).symm))

/-- The scan of zipped neighbours is the scan of windows. -/
theorem checkPairs_iff :
    checkPairs (entries.zip (entries.drop 1)) = .ok u ↔ checkOverlap entries = .ok u := by
  induction entries with
  | nil => simp [checkPairs, checkOverlap]
  | cons first rest ih =>
    cases rest with
    | nil => simp [checkPairs, checkOverlap]
    | cons second others =>
      rw [drop_succ_cons, drop_zero] at ih ⊢
      simp only [zip_cons_cons, checkPairs, checkOverlap, PackEntry.encodedEnd,
        bind_eq_ok, orThrow_eq_ok, okOr_eq_ok, throwIf_eq_ok, rejectIf_eq_ok, ih]

def dictionaryOf (entries : List PackEntry) : List (Text × PackEntry) :=
  entries.map fun entry ↦ (entry.encodedHash, entry)

theorem toDictionary_eq_ok {before dictionary : List (Text × PackEntry)}
    (h : toDictionary entries before = .ok dictionary) :
    before ++ dictionaryOf entries = dictionary := by
  induction entries generalizing before with
  | nil => simpa [toDictionary, dictionaryOf] using h
  | cons entry rest ih =>
    simp only [toDictionary, bind_eq_ok] at h
    obtain ⟨_, -, hrest⟩ := h
    rw [← ih hrest]
    simp [dictionaryOf]

theorem toDictionary_of_sorted {before : List (Text × PackEntry)}
    (hsorted : entries.Pairwise fun left right ↦ left.encodedHash < right.encodedHash)
    (hbefore : ∀ item ∈ before, ∀ entry ∈ entries, item.1 ≠ entry.encodedHash) :
    toDictionary entries before = .ok (before ++ dictionaryOf entries) := by
  induction entries generalizing before with
  | nil => simp [toDictionary, dictionaryOf, pure, Except.pure]
  | cons entry rest ih =>
    rw [pairwise_cons] at hsorted
    simp only [toDictionary, bind_eq_ok, throwIf_eq_ok, lookup_isSome_iff, beq_iff_eq]
    refine ⟨(), ?_, ?_⟩
    · rintro ⟨item, hitem, hkey⟩
      exact hbefore item hitem entry mem_cons_self hkey.symm
    · rw [ih hsorted.2]
      · simp [dictionaryOf]
      · intro item hitem other hother
        rcases mem_append.mp hitem with hold | hlast
        · exact hbefore item hold other (mem_cons_of_mem _ hother)
        · rw [mem_singleton.mp hlast]
          exact ne_of_lt (hsorted.1 other hother)

theorem lookup_dictionaryOf {key : Text} {entry : PackEntry}
    (hsorted : entries.Pairwise fun left right ↦ left.encodedHash < right.encodedHash) :
    (dictionaryOf entries).lookup key = some entry ↔ entry ∈ entries ∧ entry.encodedHash = key := by
  induction entries with
  | nil => simp [dictionaryOf]
  | cons first rest ih =>
    rw [pairwise_cons] at hsorted
    have ih := ih hsorted.2
    unfold dictionaryOf at ih
    simp only [dictionaryOf, map_cons, lookup_cons, mem_cons]
    by_cases hkey : key = first.encodedHash
    · subst hkey
      simp only [BEq.rfl, Option.some.injEq]
      constructor
      · rintro rfl
        exact ⟨.inl rfl, rfl⟩
      · rintro ⟨rfl | hmem, heq⟩
        · rfl
        · exact absurd heq.symm (ne_of_lt (hsorted.1 entry hmem))
    · rw [beq_eq_false_iff_ne.mpr hkey]
      simp only [ih]
      constructor
      · rintro ⟨hmem, heq⟩
        exact ⟨.inr hmem, heq⟩
      · rintro ⟨rfl | hmem, heq⟩
        · exact absurd heq.symm hkey
        · exact ⟨hmem, heq⟩

theorem parseHeader_eq_ok {header : PackReader.PackHeader} :
    parseHeader bytes = .ok header ↔
      uintAt 8 bytes 16 ≤ intMaxValue ∧ PackReader.parseHeader bytes = .ok header := by
  have hlength := PackReader.uintAt_lt_u64Size bytes 40
  rw [PackReader.parseHeader_eq_ok]
  simp only [parseHeader, bind_eq_ok, orThrow_eq_ok, checkedMul_eq_some, asSpan_eq_ok, readUInt64,
    readUInt32, readUInt16, readUIntLittleEndian_eq_ok, throwIf_eq_ok, pure_eq_ok, not_lt, not_not,
    ne_eq, and_assoc, exists_and_left, exists_eq_left', exists_const, PackReader.headerAt]
  constructor
  · rintro ⟨hsize, hmax, -, hmagic, -, hversion, -, hheader, -, -, -, -, hdata, hcount, -,
      hindexLength, hresult⟩
    exact ⟨hcount, hsize, hmagic, hversion, hheader, hdata, hindexLength.symm, hmax, hresult⟩
  · rintro ⟨hcount, hsize, hmagic, hversion, hheader, hdata, hindexLength, hmax, hresult⟩
    have hinside {stop : ℕ} (h : stop ≤ 64) : stop ≤ bytes.length :=
      le_trans h (le_trans (by decide) hsize)
    rw [hindexLength] at hlength
    exact ⟨hsize, hmax, hinside (by decide), hmagic, hinside (by decide), hversion,
      hinside (by decide), hheader, hinside (by decide), hinside (by decide), hinside (by decide),
      hinside (by decide), hdata, hcount, hlength, hindexLength.symm, hresult⟩

theorem parseFooter_iff {header : PackReader.PackHeader}
    (hsize : headerSize + footerSize ≤ bytes.length) (hlength : bytes.length ≤ intMaxValue) :
    parseFooter hash bytes header = .ok u ↔ PackReader.parseFooter hash bytes header = .ok u := by
  have hint : intMaxValue ≤ maxPackBytes := by decide
  have hu64 : intMaxValue < u64Size := by decide
  have hfooter : footerSize = 72 := rfl
  rw [parseFooter_eq_ok hsize (le_trans hlength hint)]
  simp only [parseFooter, bind_eq_ok, orThrow_eq_ok, checkedAdd_eq_some, checkedInt_eq_ok,
    asSpan_eq_ok, readUInt64, readUInt16, readUIntLittleEndian_eq_ok, throwIf_eq_ok, not_or, not_lt,
    not_not, ne_eq, and_assoc, exists_and_left, exists_eq_left', exists_const]
  constructor
  · rintro ⟨-, hmagic, -, -, hversion, -, -, hoffset, -, -, hindexLength, -, -, hcount, -, hend,
      hstart, -, -, -, -, -, hdigest⟩
    refine ⟨hmagic, hversion, hoffset, hindexLength, hcount, hstart, hend, ?_⟩
    exact (toHex_injective hdigest).symm
  · rintro ⟨hmagic, hversion, hoffset, hindexLength, hcount, hstart, hend, hdigest⟩
    refine ⟨by omega, hmagic, by omega, by omega, hversion, by omega, by omega, hoffset, by omega,
      by omega, hindexLength, by omega, by omega, hcount, by omega, hend, hstart, by omega,
      by omega, by omega, by omega, by omega, ?_⟩
    rw [hdigest]
    rfl

theorem parse_eq_ok_iff_parseCore {expectedPackHash : Option Text} :
    parse hash bytes expectedPackHash = .ok reader ↔
      parseCore hash bytes expectedPackHash = .ok reader := by
  unfold parse
  split <;> simp_all

theorem parse_eq_ok (hlength : bytes.length ≤ intMaxValue) :
    parse hash bytes none = .ok reader ↔
      reader.bytes = bytes ∧ reader.dictionary = dictionaryOf reader.entries ∧
        WellFormedPack hash bytes reader.entries := by
  have hnone : ∀ previous ∈ (none : Option Text), IsHash previous := fun previous h ↦
    absurd h (Option.not_mem_none previous)
  obtain ⟨readerBytes, entries, dictionary⟩ := reader
  rw [parse_eq_ok_iff_parseCore]
  simp only [parseCore, bind_eq_ok, parseHeader_eq_ok, checkedInt_eq_ok, checkPairs_iff, pure_eq_ok,
    mk.injEq]
  constructor
  · rintro ⟨header, ⟨-, hheader⟩, _, hfooter, _, -, found, hentries, _, hoverlap, found',
      hdictionary, rfl, rfl, rfl⟩
    obtain ⟨hsize, -, -, -, hdata, -, -, rfl⟩ := PackReader.parseHeader_eq_ok.mp hheader
    have hstart : (PackReader.headerAt bytes).dataOffset = headerSize := hdata
    have hindex : (PackReader.headerAt bytes).indexOffset < u64Size :=
      PackReader.uintAt_lt_u64Size bytes 32
    rw [parseFooter_iff hsize hlength] at hfooter
    rw [hstart, parseEntries_iff hlength hindex hnone] at hentries
    refine ⟨rfl, (toDictionary_eq_ok hdictionary).symm, ?_⟩
    have hparse : PackReader.parse hash bytes =
        .ok { bytes, entries := found, indexOffset := uintAt 8 bytes 32 } := by
      simp only [PackReader.parse, bind_eq_ok, pure_eq_ok]
      exact ⟨_, hheader, _, hfooter, found, by rw [hstart]; exact hentries, _, hoverlap, rfl⟩
    exact (wellFormedPack_of_parse hparse).2.2
  · rintro ⟨rfl, rfl, hpack⟩
    have hparse := PackReader.parse_of_wellFormedPack hpack
    simp only [PackReader.parse, bind_eq_ok, pure_eq_ok, PackReader.mk.injEq] at hparse
    obtain ⟨header, hheader, _, hfooter, found, hentries, _, hoverlap, -, rfl, -⟩ := hparse
    obtain ⟨hsize, -, -, -, hdata, -, -, rfl⟩ := PackReader.parseHeader_eq_ok.mp hheader
    have hstart : (PackReader.headerAt readerBytes).dataOffset = headerSize := hdata
    have hcount : uintAt 8 readerBytes 16 ≤ intMaxValue := by
      have hend := hpack.index_end
      rw [show entrySize = 96 from rfl] at hend
      rw [hpack.entry_count]
      omega
    refine ⟨_, ⟨hcount, hheader⟩, (), (parseFooter_iff hsize hlength).mpr hfooter, _,
      ⟨hcount, rfl⟩, found, ?_, (), hoverlap, _,
      toDictionary_of_sorted hpack.sorted fun item hitem ↦ ?_, rfl, rfl, rfl⟩
    · rw [hstart] at hentries ⊢
      exact (parseEntries_iff hlength (uintAt_lt_u64Size _ 32) hnone).mpr hentries
    · exact absurd hitem not_mem_nil

theorem readEncoded_eq_ok {encodedHash : Text} {chunk : Bytes}
    (hlength : reader.bytes.length ≤ intMaxValue)
    (hdictionary : reader.dictionary = dictionaryOf reader.entries)
    (hpack : WellFormedPack hash reader.bytes reader.entries) :
    reader.readEncoded hash encodedHash = .ok chunk ↔
      ∃ entry ∈ reader.entries, IsHash encodedHash ∧ entry.encodedHash = encodedHash ∧
        chunk = slice reader.bytes entry.offset entry.encodedLength ∧
        (hash chunk).hex = encodedHash := by
  simp only [readEncoded, bind_eq_ok, validateClientHash_eq_ok, orThrow_eq_ok, hdictionary,
    lookup_dictionaryOf hpack.sorted, checkedInt_eq_ok, asSpan_eq_ok, throwIf_eq_ok, not_not,
    ne_eq, pure_eq_ok, and_assoc, exists_and_left, exists_eq_left', exists_const]
  constructor
  · rintro ⟨hhash, entry, hmem, rfl, -, -, -, hactual, rfl⟩
    exact ⟨entry, hmem, hhash, rfl, rfl, hactual⟩
  · rintro ⟨entry, hmem, hhash, rfl, rfl, hactual⟩
    have hend := (hpack.bounds entry hmem).end_le
    have hindexEnd := hpack.index_end
    exact ⟨hhash, entry, hmem, rfl, by omega, by omega, by omega, hactual, rfl⟩

end PhysicalPackReader

/-- The Rust and the C# reader accept the same byte strings, list the same entries, and read the
same bytes for every hash or both fail.

Assumes: `hlength`, the byte string is one that a C# array can hold. -/
theorem packReaders_agree (hash : Bytes → Digest) (bytes : Bytes)
    (hlength : bytes.length < 2 ^ 31) :
    ((∃ reader, PackReader.parse hash bytes = .ok reader) ↔
      ∃ client, PhysicalPackReader.parse hash bytes none = .ok client) ∧
    ∀ reader client, PackReader.parse hash bytes = .ok reader →
      PhysicalPackReader.parse hash bytes none = .ok client →
      reader.entries = client.entries ∧
        ∀ encodedHash, (reader.readEncoded hash encodedHash).toOption =
          (client.readEncoded hash encodedHash).toOption := by
  have hint : bytes.length ≤ intMaxValue := Nat.le_sub_one_of_lt hlength
  refine ⟨⟨?_, ?_⟩, ?_⟩
  · rintro ⟨reader, hparse⟩
    obtain ⟨-, -, hpack⟩ := parse_eq_ok.mp hparse
    let dictionary := PhysicalPackReader.dictionaryOf reader.entries
    exact ⟨{ bytes, entries := reader.entries, dictionary },
      (PhysicalPackReader.parse_eq_ok hint).mpr ⟨rfl, rfl, hpack⟩⟩
  · rintro ⟨client, hparse⟩
    obtain ⟨-, -, hpack⟩ := (PhysicalPackReader.parse_eq_ok hint).mp hparse
    exact ⟨_, parse_of_wellFormedPack hpack⟩
  · intro reader client hreader hclient
    obtain ⟨hbytes, -, hpack⟩ := parse_eq_ok.mp hreader
    obtain ⟨hclientBytes, hdictionary, hclientPack⟩ :=
      (PhysicalPackReader.parse_eq_ok hint).mp hclient
    have hsame := (parse_of_wellFormedPack hpack).symm.trans
      (parse_of_wellFormedPack hclientPack)
    have hentries : reader.entries = client.entries :=
      congrArg PackReader.entries (Except.ok.inj hsame)
    refine ⟨hentries, fun encodedHash ↦ Option.ext fun chunk ↦ ?_⟩
    subst hbytes
    rw [← hclientBytes] at hint hclientPack
    rw [toOption_eq_some, toOption_eq_some, readEncoded_eq_ok hpack,
      PhysicalPackReader.readEncoded_eq_ok hint hdictionary hclientPack, hentries, hclientBytes]

/-- The pack that holds one chunk without bytes. -/
def emptyChunkPack : Bytes :=
  packBytes sampleHash (layoutOf [0]) []
    [[emptyDigest.bytes, emptyDigest.bytes, leBytes 8 headerSize, leBytes 8 0, leBytes 8 0,
      leBytes 4 compressionZstd, leBytes 4 0].flatten]

/-- Both readers accept the pack of a chunk without bytes. -/
theorem packReaders_agree_emptyChunkPack :
    emptyChunkPack.length < 2 ^ 31 ∧
      ∃ reader client, PackReader.parse sampleHash emptyChunkPack = .ok reader ∧
        PhysicalPackReader.parse sampleHash emptyChunkPack none = .ok client ∧
        reader.entries = client.entries := by
  have hlength : emptyChunkPack.length < 2 ^ 31 := by decide +kernel
  have hsome : (PackReader.parse sampleHash emptyChunkPack).toOption.isSome = true := by
    decide +kernel
  obtain ⟨hboth, hequal⟩ := packReaders_agree sampleHash emptyChunkPack hlength
  obtain ⟨reader, hreader⟩ := Option.isSome_iff_exists.mp hsome
  rw [toOption_eq_some] at hreader
  obtain ⟨client, hclient⟩ := hboth.mp ⟨reader, hreader⟩
  exact ⟨hlength, reader, client, hreader, hclient, (hequal reader client hreader hclient).1⟩

end GameLauncher.Packs
