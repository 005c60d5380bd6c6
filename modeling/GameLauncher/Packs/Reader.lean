import GameLauncher.Foundation.BinarySearch
import GameLauncher.Packs.Format

/-!
# The Rust pack reader

`PackReader::parse`, `verify_pack_hash`, `entry` and `read_encoded` of `launcher-packs`, with
every slice and index of the source kept as an operation that can panic.

`parse_eq_ok` is the specification of the parser: it accepts a byte string with a given index
exactly when the string is a well-formed pack with that index. `entry_eq_ok` and
`readEncoded_eq_ok` specify the lookup and the read on such a reader.
-/

set_option autoImplicit false

namespace GameLauncher.Packs

open Foundation Fallible List

/-- A parsed pack: its bytes, its index and the offset of the index. -/
structure PackReader where
  bytes : Bytes
  entries : List PackEntry
  indexOffset : ℕ
  deriving DecidableEq, Repr

namespace PackReader

/-- The record at a position of the index, with the checks that concern it alone. -/
def parseEntry (bytes : Bytes) (dataOffset indexOffset position : ℕ) (previousHash : Option Text) :
    PackResult PackEntry := do
  let scaled ← okOr (checkedMul position entrySize) (.invalidIndex "entry offset overflows")
  let start ← okOr (checkedAdd indexOffset scaled) (.invalidIndex "entry offset overflows")
  let stop ← okOr (checkedAdd start entrySize) (.invalidIndex "entry end overflows")
  let record ← indexRange bytes start stop
  let encodedHash ← readHash record 0
  let rawHash ← readHash record 32
  let offset ← okOr (readU64 record 64) .truncated
  let encodedLength ← okOr (readU64 record 72) .truncated
  let rawLength ← okOr (readU64 record 80) .truncated
  let compression ← okOr (readU32 record 88) .truncated
  let flags ← okOr (readU32 record 92) .truncated
  validateHash "encoded" encodedHash
  validateHash "raw" rawHash
  rejectIf (maxDeclaredChunkBytes < rawLength ∨ maxDeclaredChunkBytes < encodedLength)
    (.invalidIndex "declared chunk length is too large")
  rejectIf (compression ≠ compressionZstd) (.unsupportedCompression compression)
  rejectIf (∃ previous ∈ previousHash, encodedHash ≤ previous)
    (.invalidIndex "entries are not strictly sorted or contain a duplicate")
  let entry : PackEntry :=
    { encodedHash, rawHash, offset, encodedLength, rawLength, compression, flags }
  let endOffset ← entry.encodedEnd
  rejectIf (offset < dataOffset ∨ indexOffset < endOffset)
    (.invalidIndex "chunk bytes are outside the data region")
  pure entry

def parseEntries (bytes : Bytes) (dataOffset indexOffset : ℕ) :
    ℕ → ℕ → Option Text → PackResult (List PackEntry)
  | 0, _, _ => pure []
  | remaining + 1, position, previousHash => do
    let entry ← parseEntry bytes dataOffset indexOffset position previousHash
    let rest ← parseEntries bytes dataOffset indexOffset remaining (position + 1)
      (some entry.encodedHash)
    pure (entry :: rest)

/-- The scan over the neighbours in the order of offsets. -/
def checkOverlap : List PackEntry → PackResult Unit
  | first :: second :: rest => do
    let stop ← first.encodedEnd
    rejectIf (second.offset < stop) (.invalidIndex "chunk data ranges overlap")
    checkOverlap (second :: rest)
  | _ => pure ()

/-- The fields of the header that the rest of the parser uses. -/
structure PackHeader where
  entryCount : ℕ
  dataOffset : ℕ
  indexOffset : ℕ
  indexLength : ℕ

/-- The header checks of `PackReader::parse`. -/
def parseHeader (bytes : Bytes) : PackResult PackHeader := do
  rejectIf (bytes.length < headerSize + footerSize) .truncated
  let magic ← indexRange bytes 0 8
  rejectIf (magic ≠ headerMagic) .invalidMagic
  let version ← okOr (readU16 bytes 8) .truncated
  rejectIf (version ≠ formatVersion) (.unsupportedVersion version)
  let headerLength ← okOr (readU32 bytes 12) .truncated
  rejectIf (headerLength ≠ headerSize)
    (.invalidHeader s!"header length is {headerLength}, expected {headerSize}")
  let entryCount ← okOr (readU64 bytes 16) .truncated
  let dataOffset ← okOr (readU64 bytes 24) .truncated
  let indexOffset ← okOr (readU64 bytes 32) .truncated
  let indexLength ← okOr (readU64 bytes 40) .truncated
  rejectIf (dataOffset ≠ headerSize) (.invalidHeader "data offset is not after the header")
  let expectedIndexLength ← okOr (checkedMul entryCount entrySize)
    (.invalidHeader "entry count overflows index length")
  rejectIf (indexLength ≠ expectedIndexLength)
    (.invalidHeader "index length does not match entry count")
  rejectIf (maxPackBytes < bytes.length) (.invalidHeader "pack exceeds the format size limit")
  pure { entryCount, dataOffset, indexOffset, indexLength }

/-- The footer and index-digest checks of `PackReader::parse`. -/
def parseFooter (hash : Bytes → Digest) (bytes : Bytes) (header : PackHeader) :
    PackResult Unit := do
  let footerStart := bytes.length - footerSize
  let footer ← indexRange bytes footerStart (footerStart + 8)
  rejectIf (footer ≠ footerMagic) .invalidMagic
  let footerVersion ← okOr (readU16 bytes (footerStart + 8)) .truncated
  rejectIf (footerVersion ≠ formatVersion) (.unsupportedVersion footerVersion)
  let footerIndexOffset ← okOr (readU64 bytes (footerStart + 12)) .truncated
  let footerIndexLength ← okOr (readU64 bytes (footerStart + 20)) .truncated
  let footerEntryCount ← okOr (readU64 bytes (footerStart + 28)) .truncated
  rejectIf (footerIndexOffset ≠ header.indexOffset ∨ footerIndexLength ≠ header.indexLength ∨
    footerEntryCount ≠ header.entryCount) (.invalidFooter "footer does not match the header")
  let indexEnd ← okOr (checkedAdd header.indexOffset header.indexLength)
    (.invalidIndex "index bounds overflow")
  rejectIf (header.indexOffset < header.dataOffset ∨ footerStart < indexEnd ∨
    indexEnd ≠ footerStart) (.invalidIndex "index is outside the pack")
  let expectedIndexHash ← indexRange bytes (footerStart + 40) (footerStart + 72)
  let index ← indexRange bytes header.indexOffset indexEnd
  rejectIf (expectedIndexHash ≠ (hash index).bytes) (.invalidIndex "index digest mismatch")

/-- `PackReader::parse`. -/
def parse (hash : Bytes → Digest) (bytes : Bytes) : PackResult PackReader := do
  let header ← parseHeader bytes
  parseFooter hash bytes header
  let entries ← parseEntries bytes header.dataOffset header.indexOffset header.entryCount 0 none
  checkOverlap (sortByOffset entries)
  pure { bytes, entries, indexOffset := header.indexOffset }

/-- `PackReader::verify_pack_hash`. -/
def verifyPackHash (hash : Bytes → Digest) (reader : PackReader) (expected : Text) :
    PackResult Unit := do
  validateHash "pack" expected
  let actual := (hash reader.bytes).hex
  rejectIf (actual ≠ expected) (.packHashMismatch expected actual)

/-- `PackReader::entry`: the binary search in the index. -/
def entry (reader : PackReader) (encodedHash : Text) : PackResult PackEntry := do
  validateHash "encoded" encodedHash
  let position ← okOr (binarySearchBy reader.entries PackEntry.encodedHash encodedHash)
    (.chunkNotFound encodedHash)
  match reader.entries[position]? with
  | some found => pure found
  | none => .error .panic

/-- `PackReader::read_encoded`. -/
def readEncoded (hash : Bytes → Digest) (reader : PackReader) (encodedHash : Text) :
    PackResult Bytes := do
  let entry ← reader.entry encodedHash
  let stop ← okOr (checkedAdd entry.offset entry.encodedLength)
    (.invalidIndex "chunk end overflows")
  let bytes ← okOr (getRange reader.bytes entry.offset stop) .truncated
  let actual := (hash bytes).hex
  rejectIf (actual ≠ entry.encodedHash) (.chunkHashMismatch entry.encodedHash actual)
  pure bytes

/-! ### What the parser accepts -/

variable {bytes : Bytes} {indexOffset : ℕ} {entries : List PackEntry} {hash : Bytes → Digest}
  {reader : PackReader}

theorem parseEntry_eq_ok {position : ℕ} {previousHash : Option Text} {entry : PackEntry}
    (hindex : indexOffset < u64Size) :
    parseEntry bytes headerSize indexOffset position previousHash = .ok entry ↔
      indexOffset + position * entrySize + entrySize < u64Size ∧
        indexOffset + position * entrySize + entrySize ≤ bytes.length ∧
        entry = entryAt (slice bytes (indexOffset + position * entrySize) entrySize) ∧
        (∀ previous ∈ previousHash, previous < entry.encodedHash) ∧
        EntryBounds indexOffset entry := by
  have hrecord (hlength : indexOffset + position * entrySize + entrySize ≤ bytes.length) :
      (slice bytes (indexOffset + position * entrySize) entrySize).length = 96 :=
    length_slice_of_le hlength
  simp only [parseEntry, bind_eq_ok, okOr_eq_ok, checkedAdd_eq_some, checkedMul_eq_some,
    indexRange_eq_ok, readHash_eq_ok, readU64, readU32, readUint_eq_some, validateHash_eq_ok,
    rejectIf_eq_ok, PackEntry.encodedEnd, pure_eq_ok, and_assoc, exists_and_left, exists_eq_left',
    exists_const, Nat.add_sub_cancel_left, not_or, not_lt, not_not, ne_eq]
  constructor
  · rintro ⟨-, -, hsize, -, hlength, -, -, -, -, -, -, -, -, -, -, -, -, -, -, -, -, hraw, hencoded,
      hcompression, hsorted, -, hstart, hend, rfl⟩
    refine ⟨hsize, hlength, rfl, ?_, hraw, hencoded, hcompression, hstart, hend⟩
    intro previous hprevious
    by_contra hle
    exact hsorted ⟨previous, hprevious, not_lt.mp hle⟩
  · rintro ⟨hsize, hlength, rfl, hsorted, hbounds⟩
    have hinside {stop : ℕ} (h : stop ≤ 96) :
        stop ≤ (slice bytes (indexOffset + position * entrySize) entrySize).length :=
      le_of_le_of_eq h (hrecord hlength).symm
    refine ⟨by omega, by omega, hsize, Nat.le_add_right _ _, hlength, by decide,
      hinside (by decide), by decide, hinside (by decide), by decide, hinside (by decide),
      by decide, hinside (by decide), by decide, hinside (by decide), by decide,
      hinside (by decide), by decide, hinside (by decide), ?_, ?_, hbounds.rawLength_le,
      hbounds.encodedLength_le, hbounds.compression_eq, ?_,
      lt_of_le_of_lt hbounds.end_le hindex, hbounds.le_offset, hbounds.end_le, rfl⟩
    · exact isHash_toHex (length_slice_of_le (hinside (by decide)))
    · exact isHash_toHex (length_slice_of_le (hinside (by decide)))
    · rintro ⟨previous, hprevious, hle⟩
      exact absurd (hsorted previous hprevious) (not_lt.mpr hle)

/-- The loop returns the records from its position on, each within its bounds and after the
previous one in the order of hashes. -/
theorem parseEntries_eq_ok {remaining position : ℕ} {previousHash : Option Text}
    (hindex : indexOffset < u64Size)
    (hfits : indexOffset + (position + remaining) * entrySize < u64Size)
    (hlength : indexOffset + (position + remaining) * entrySize ≤ bytes.length) :
    parseEntries bytes headerSize indexOffset remaining position previousHash = .ok entries ↔
      entries.length = remaining ∧ (∀ (i : ℕ) (h : i < entries.length), entries[i] =
          entryAt (slice bytes (indexOffset + (position + i) * entrySize) entrySize)) ∧
        (∀ entry ∈ entries, ∀ previous ∈ previousHash, previous < entry.encodedHash) ∧
        (entries.Pairwise fun left right ↦ left.encodedHash < right.encodedHash) ∧
        ∀ entry ∈ entries, EntryBounds indexOffset entry := by
  induction remaining generalizing position previousHash entries with
  | zero =>
    rw [parseEntries, pure_eq_ok]
    constructor
    · rintro rfl
      simp
    · rintro ⟨hzero, -⟩
      exact (length_eq_zero_iff.mp hzero).symm
  | succ remaining ih =>
    have hstep : (position + 1 + remaining) * entrySize = (position + (remaining + 1)) * entrySize := by
      ring
    have hthis : indexOffset + position * entrySize + entrySize ≤
        indexOffset + (position + (remaining + 1)) * entrySize := by
      have : (position + (remaining + 1)) * entrySize =
        position * entrySize + remaining * entrySize + entrySize := by ring
      omega
    simp only [parseEntries, bind_eq_ok, pure_eq_ok, parseEntry_eq_ok hindex]
    constructor
    · rintro ⟨entry, ⟨-, -, hentry, hprevious, hbounds⟩, rest, hrest, rfl⟩
      rw [ih (by rw [hstep]; exact hfits) (by rw [hstep]; exact hlength)] at hrest
      obtain ⟨hcount, hrecords, hafter, hpairwise, hall⟩ := hrest
      refine ⟨by rw [length_cons, hcount], ?_, ?_, ?_, ?_⟩
      · intro i hi
        cases i with
        | zero => simpa using hentry
        | succ i =>
          rw [getElem_cons_succ, hrecords i (by simpa using hi)]
          congr 3
          ring
      · intro other hother previous hmem
        rcases mem_cons.mp hother with rfl | hother
        · exact hprevious previous hmem
        · exact lt_trans (hprevious previous hmem) (hafter other hother _ rfl)
      · exact pairwise_cons.mpr ⟨fun other hother ↦ hafter other hother _ rfl, hpairwise⟩
      · intro other hother
        rcases mem_cons.mp hother with rfl | hother
        · exact hbounds
        · exact hall other hother
    · rintro ⟨hcount, hrecords, hafter, hpairwise, hall⟩
      obtain ⟨entry, rest, rfl⟩ := exists_cons_of_length_eq_add_one hcount
      rw [pairwise_cons] at hpairwise
      refine ⟨entry, ⟨by omega, by omega, ?_, hafter entry mem_cons_self,
        hall entry mem_cons_self⟩, rest, ?_, rfl⟩
      · have h := hrecords 0 (Nat.succ_pos _)
        rwa [getElem_cons_zero, Nat.add_zero] at h
      · rw [ih (by rw [hstep]; exact hfits) (by rw [hstep]; exact hlength)]
        refine ⟨by simpa using hcount, ?_, ?_, hpairwise.2,
          fun other hother ↦ hall other (mem_cons_of_mem _ hother)⟩
        · intro i hi
          have h := hrecords (i + 1) (by simpa using hi)
          rw [getElem_cons_succ] at h
          rw [h]
          congr 3
          ring
        · intro other hother previous hmem
          obtain rfl := Option.some.inj hmem
          exact hpairwise.1 other hother

theorem checkOverlap_eq_ok {u : Unit}
    (hbounds : ∀ entry ∈ entries, entry.offset + entry.encodedLength < u64Size) :
    checkOverlap entries = .ok u ↔
      entries.IsChain fun left right ↦ left.offset + left.encodedLength ≤ right.offset := by
  induction entries with
  | nil => simp [checkOverlap]
  | cons first rest ih =>
    cases rest with
    | nil => simp [checkOverlap]
    | cons second rest =>
      have hfirst := hbounds first mem_cons_self
      rw [isChain_cons_cons, ← ih fun entry h ↦ hbounds entry (mem_cons_of_mem _ h)]
      simp only [checkOverlap, bind_eq_ok, PackEntry.encodedEnd, okOr_eq_ok, checkedAdd_eq_some,
        rejectIf_eq_ok, not_lt]
      constructor
      · rintro ⟨stop, ⟨-, rfl⟩, -, hle, hrest⟩
        exact ⟨hle, hrest⟩
      · rintro ⟨hle, hrest⟩
        exact ⟨_, ⟨hfirst, rfl⟩, (), hle, hrest⟩

theorem uintAt_lt_u64Size (bytes : Bytes) (offset : ℕ) : uintAt 8 bytes offset < u64Size :=
  leValue_slice_lt bytes offset 8

theorem overlap_operands (hindex : indexOffset < u64Size)
    (hbounds : ∀ entry ∈ entries, EntryBounds indexOffset entry) :
    ∀ entry ∈ sortByOffset entries, entry.offset + entry.encodedLength < u64Size := by
  intro entry hentry
  exact lt_of_le_of_lt (hbounds entry (mem_insertionSort _ |>.mp hentry)).end_le hindex

/-- The header that `parseHeader` reads. -/
def headerAt (bytes : Bytes) : PackHeader where
  entryCount := uintAt 8 bytes 16
  dataOffset := uintAt 8 bytes 24
  indexOffset := uintAt 8 bytes 32
  indexLength := uintAt 8 bytes 40

theorem parseHeader_eq_ok {header : PackHeader} :
    parseHeader bytes = .ok header ↔
      headerSize + footerSize ≤ bytes.length ∧ slice bytes 0 8 = headerMagic ∧
        uintAt 2 bytes 8 = formatVersion ∧ uintAt 4 bytes 12 = headerSize ∧
        uintAt 8 bytes 24 = headerSize ∧
        uintAt 8 bytes 40 = uintAt 8 bytes 16 * entrySize ∧ bytes.length ≤ maxPackBytes ∧
        headerAt bytes = header := by
  have hlength := uintAt_lt_u64Size bytes 40
  simp only [parseHeader, bind_eq_ok, okOr_eq_ok, checkedMul_eq_some, indexRange_eq_ok, readU64,
    readU32, readU16, readUint_eq_some, rejectIf_eq_ok, pure_eq_ok, not_lt, not_not, ne_eq,
    and_assoc, exists_and_left, exists_eq_left', exists_const, Nat.sub_zero, headerAt]
  constructor
  · rintro ⟨hsize, -, -, hmagic, -, -, hversion, -, -, hheader, -, -, -, -, -, -, -, -, hdata, -,
      hindexLength, hmax, rfl⟩
    exact ⟨hsize, hmagic, hversion, hheader, hdata, hindexLength, hmax, rfl⟩
  · rintro ⟨hsize, hmagic, hversion, hheader, hdata, hindexLength, hmax, rfl⟩
    have hinside {stop : ℕ} (h : stop ≤ 64) : stop ≤ bytes.length :=
      le_trans h (le_trans (by decide) hsize)
    rw [hindexLength] at hlength
    exact ⟨hsize, by decide, hinside (by decide), hmagic, by decide, hinside (by decide), hversion,
      by decide, hinside (by decide), hheader, by decide, hinside (by decide), by decide,
      hinside (by decide), by decide, hinside (by decide), by decide, hinside (by decide), hdata,
      hlength, hindexLength, hmax, rfl⟩

theorem parseFooter_eq_ok {header : PackHeader} {u : Unit}
    (hsize : headerSize + footerSize ≤ bytes.length) (hmax : bytes.length ≤ maxPackBytes) :
    parseFooter hash bytes header = .ok u ↔
      slice bytes (bytes.length - footerSize) 8 = footerMagic ∧
        uintAt 2 bytes (bytes.length - footerSize + 8) = formatVersion ∧
        uintAt 8 bytes (bytes.length - footerSize + 12) = header.indexOffset ∧
        uintAt 8 bytes (bytes.length - footerSize + 20) = header.indexLength ∧
        uintAt 8 bytes (bytes.length - footerSize + 28) = header.entryCount ∧
        header.dataOffset ≤ header.indexOffset ∧
        header.indexOffset + header.indexLength = bytes.length - footerSize ∧
        slice bytes (bytes.length - footerSize + 40) 32 =
          (hash (slice bytes header.indexOffset header.indexLength)).bytes := by
  have hsmall : bytes.length < u64Size := lt_of_le_of_lt hmax (by decide)
  have hfooter : footerSize = 72 := rfl
  simp only [parseFooter, bind_eq_ok, okOr_eq_ok, checkedAdd_eq_some, indexRange_eq_ok, readU64,
    readU16, readUint_eq_some, rejectIf_eq_ok, not_or, not_lt, not_not, ne_eq, and_assoc,
    exists_and_left, exists_eq_left', exists_const, Nat.add_sub_cancel_left,
    Nat.add_sub_add_left]
  constructor
  · rintro ⟨-, -, hmagic, -, -, hversion, -, -, -, -, -, -, hoffset, hlength, hcount, -, hstart,
      -, hend, -, -, -, -, hdigest⟩
    exact ⟨hmagic, hversion, hoffset, hlength, hcount, hstart, hend, hdigest⟩
  · rintro ⟨hmagic, hversion, hoffset, hlength, hcount, hstart, hend, hdigest⟩
    have hinside (offset : ℕ) (h : offset ≤ 72) :
        bytes.length - footerSize + offset ≤ bytes.length := by omega
    have hfits (offset : ℕ) (h : offset ≤ 72) :
        bytes.length - footerSize + offset < u64Size := by omega
    refine ⟨Nat.le_add_right _ _, hinside 8 (by decide), hmagic, hfits 10 (by decide),
      hinside 10 (by decide), hversion, hfits 20 (by decide), hinside 20 (by decide),
      hfits 28 (by decide), hinside 28 (by decide), hfits 36 (by decide), hinside 36 (by decide),
      hoffset, hlength, hcount, by omega, hstart, by omega, hend, by omega, hinside _ (by decide),
      Nat.le_add_right _ _, by omega, hdigest⟩

theorem wellFormedPack_of_parse (hparse : parse hash bytes = .ok reader) :
    reader.bytes = bytes ∧ reader.indexOffset = uintAt 8 bytes 32 ∧
      WellFormedPack hash bytes reader.entries := by
  simp only [parse, bind_eq_ok, pure_eq_ok] at hparse
  obtain ⟨header, hheader, _, hfooter, entries, hentries, _, hoverlap, rfl⟩ := hparse
  obtain ⟨hsize, hmagic, hversion, hlength, hdata, hindexLength, hmax, rfl⟩ :=
    parseHeader_eq_ok.mp hheader
  obtain ⟨hfooterMagic, hfooterVersion, hfooterOffset, hfooterLength, hfooterCount, hstart, hend,
    hdigest⟩ := (parseFooter_eq_ok hsize hmax).mp hfooter
  have hindex := uintAt_lt_u64Size bytes 32
  have hfootEnd : uintAt 8 bytes 32 + uintAt 8 bytes 16 * entrySize = bytes.length - footerSize := by
    rw [← hindexLength]
    exact hend
  simp only [headerAt, hdata] at hstart hentries
  simp only [headerAt, hindexLength] at hfooterOffset hfooterLength hfooterCount hdigest
  rw [parseEntries_eq_ok hindex
    (by rw [Nat.zero_add, hfootEnd]; exact lt_of_le_of_lt (Nat.sub_le _ _)
          (lt_of_le_of_lt hmax (by decide)))
    (by rw [Nat.zero_add, hfootEnd]; exact Nat.sub_le _ _)] at hentries
  obtain ⟨hcount, hrecords, -, hsorted, hbounds⟩ := hentries
  rw [checkOverlap_eq_ok (overlap_operands hindex hbounds)] at hoverlap
  rw [← hcount] at hindexLength hfooterLength hfooterCount hfootEnd hdigest
  refine ⟨rfl, rfl, hsize, hmax, hmagic, hversion, hlength, hcount.symm, hdata, hindexLength,
    hfooterMagic, hfooterVersion, hfooterOffset, hfooterLength, hfooterCount, hstart, hfootEnd,
    hdigest, ?_, hsorted, hbounds, hoverlap⟩
  intro position h
  have hrecord := hrecords position h
  rwa [Nat.zero_add] at hrecord

theorem parse_of_wellFormedPack (hpack : WellFormedPack hash bytes entries) :
    parse hash bytes = .ok { bytes, entries, indexOffset := uintAt 8 bytes 32 } := by
  have hindex := uintAt_lt_u64Size bytes 32
  have hmax := hpack.le_maxPackBytes
  have hsmall : bytes.length < u64Size := lt_of_le_of_lt hmax (by decide)
  have hend := hpack.index_end
  simp only [parse, bind_eq_ok, pure_eq_ok]
  refine ⟨headerAt bytes, ?_, (), ?_, entries, ?_, (), ?_, rfl⟩
  · rw [parseHeader_eq_ok, hpack.index_length, hpack.entry_count]
    exact ⟨hpack.size_le, hpack.header_magic, hpack.header_version, hpack.header_length,
      hpack.data_offset, rfl, hmax, rfl⟩
  · rw [parseFooter_eq_ok hpack.size_le hmax]
    simp only [headerAt, hpack.index_length, hpack.entry_count, hpack.data_offset]
    exact ⟨hpack.footer_magic, hpack.footer_version, hpack.footer_index_offset,
      hpack.footer_index_length, hpack.footer_entry_count, hpack.le_index_offset, hend,
      hpack.index_digest⟩
  · simp only [headerAt, hpack.entry_count, hpack.data_offset]
    rw [parseEntries_eq_ok hindex (by rw [Nat.zero_add]; omega) (by rw [Nat.zero_add]; omega)]
    refine ⟨rfl, ?_, ?_, hpack.sorted, hpack.bounds⟩
    · intro position h
      rw [Nat.zero_add]
      exact hpack.entry_eq position h
    · intro _ _ previous hnone
      exact absurd hnone (Option.not_mem_none previous)
  · rw [checkOverlap_eq_ok (overlap_operands hindex hpack.bounds)]
    exact hpack.nonOverlapping

theorem parse_eq_ok :
    parse hash bytes = .ok reader ↔ reader.bytes = bytes ∧ reader.indexOffset = uintAt 8 bytes 32 ∧
        WellFormedPack hash bytes reader.entries := by
  refine ⟨wellFormedPack_of_parse, ?_⟩
  obtain ⟨readerBytes, entries, indexOffset⟩ := reader
  change readerBytes = bytes ∧ indexOffset = uintAt 8 bytes 32 ∧ _ → _
  rintro ⟨rfl, rfl, hpack⟩
  exact parse_of_wellFormedPack hpack

/-- The lookup in a well-formed pack finds exactly the index record with the hash. -/
theorem entry_eq_ok {encodedHash : Text} {entry : PackEntry}
    (hsorted : reader.entries.Pairwise fun left right ↦ left.encodedHash < right.encodedHash) :
    reader.entry encodedHash = .ok entry ↔
      IsHash encodedHash ∧ entry ∈ reader.entries ∧ entry.encodedHash = encodedHash := by
  simp only [PackReader.entry, bind_eq_ok, validateHash_eq_ok, okOr_eq_ok]
  constructor
  · rintro ⟨-, hhash, position, hfound, hentry⟩
    obtain ⟨hposition, hkey⟩ := key_of_binarySearchBy hfound
    rw [List.getElem?_eq_getElem hposition, pure_eq_ok] at hentry
    subst hentry
    exact ⟨hhash, getElem_mem hposition, hkey⟩
  · rintro ⟨hhash, hmem, hkey⟩
    obtain ⟨position, hposition, rfl⟩ := getElem_of_mem hmem
    refine ⟨(), hhash, position, binarySearchBy_of_key hsorted hposition hkey, ?_⟩
    rw [List.getElem?_eq_getElem hposition, pure_eq_ok]

/-- The read from a well-formed pack returns the range of the record with the hash, if the
range has that hash. -/
theorem readEncoded_eq_ok {encodedHash : Text} {chunk : Bytes}
    (hpack : WellFormedPack hash reader.bytes reader.entries) :
    reader.readEncoded hash encodedHash = .ok chunk ↔
      ∃ entry ∈ reader.entries, IsHash encodedHash ∧ entry.encodedHash = encodedHash ∧
        chunk = slice reader.bytes entry.offset entry.encodedLength ∧
        (hash chunk).hex = encodedHash := by
  simp only [readEncoded, bind_eq_ok, entry_eq_ok hpack.sorted, okOr_eq_ok, checkedAdd_eq_some,
    getRange_eq_some, rejectIf_eq_ok, not_not, ne_eq, pure_eq_ok]
  constructor
  · rintro ⟨entry, ⟨hhash, hmem, rfl⟩, stop, ⟨-, rfl⟩, bytes, ⟨-, rfl⟩, -, hactual, rfl⟩
    rw [Nat.add_sub_cancel_left] at hactual ⊢
    exact ⟨entry, hmem, hhash, rfl, rfl, hactual⟩
  · rintro ⟨entry, hmem, hhash, rfl, rfl, hactual⟩
    have hend := (hpack.bounds entry hmem).end_le
    have hindex := uintAt_lt_u64Size reader.bytes 32
    have hindexEnd := hpack.index_end
    refine ⟨entry, ⟨hhash, hmem, rfl⟩, _, ⟨lt_of_le_of_lt hend hindex, rfl⟩, _,
      ⟨⟨Nat.le_add_right _ _, by omega⟩, rfl⟩, (), ?_, ?_⟩
    · rw [Nat.add_sub_cancel_left]
      exact hactual
    · rw [Nat.add_sub_cancel_left]

end PackReader

end GameLauncher.Packs
