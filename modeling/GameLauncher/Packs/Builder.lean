import GameLauncher.Packs.Reader

/-!
# The in-memory pack writer

`PackConfig`, `PackBuilder::push`, `PackBuilder::build`, `build_packs` and `build_artifact` of
`launcher-packs`. The grouping loop, the layout computation, the index writer and the header
writer are stated once: the streaming writer repeats them in the source.

`buildArtifact_eq_ok` describes the artifact of a group in closed form, `wellFormedPack_packBytes`
shows that its parts are where the readers look for them, and `packRoundTrip_of_build` is the
round trip of a whole run of pushes.
-/

set_option autoImplicit false

namespace GameLauncher.Packs

open Foundation Fallible List PackReader

/-! ### Configuration and inputs -/

/-- The grouping bounds of the writers. -/
structure PackConfig where
  targetBytes : ℕ := defaultTargetBytes
  minBytes : ℕ := defaultMinBytes
  maxBytes : ℕ := defaultMaxBytes
  deriving DecidableEq, Repr

/-- `PackConfig::validate`. -/
def PackConfig.validate (config : PackConfig) : PackResult Unit :=
  let low := config.minBytes
  let target := config.targetBytes
  let high := config.maxBytes
  rejectIf (low = 0 ∨ target < low ∨ high < target ∨ maxPackBytes < high)
    (.configuration
      s!"expected 0 < min <= target <= max <= {maxPackBytes}, got min={low} target={target} max={high}")

/-- An encoded chunk in memory. -/
structure PackInput where
  encodedHash : Text
  rawHash : Text
  rawSize : ℕ
  encodedBytes : Bytes
  deriving DecidableEq, Repr

def encodedSizes (inputs : List PackInput) : List ℕ :=
  inputs.map fun input ↦ input.encodedBytes.length

/-- A finished pack in memory. -/
structure PackArtifact where
  packHash : Text
  bytes : Bytes
  entries : List PackEntry
  deriving DecidableEq, Repr

/-- A builder: its configuration and the inputs pushed so far. -/
structure PackBuilder where
  config : PackConfig
  inputs : List PackInput
  deriving DecidableEq, Repr

/-! ### The parts shared by both writers -/

/-- The grouping loop over the remaining inputs, with the groups closed so far, the current group
and its byte count. -/
def groupLoop {α : Type} (config : PackConfig) (size : α → ℕ) :
    List α → List (List α) → List α → ℕ → List (List α)
  | [], groups, current, _ => if current.isEmpty then groups else groups ++ [current]
  | input :: rest, groups, current, currentBytes =>
    let inputBytes := size input
    if ¬ current.isEmpty ∧ (config.maxBytes < saturatingAdd currentBytes inputBytes ∨
        (config.minBytes ≤ currentBytes ∧
          config.targetBytes < saturatingAdd currentBytes inputBytes)) then
      groupLoop config size rest (groups ++ [current]) [input] (saturatingAdd 0 inputBytes)
    else
      groupLoop config size rest groups (current ++ [input]) (saturatingAdd currentBytes inputBytes)

def groupInputs {α : Type} (config : PackConfig) (size : α → ℕ) (inputs : List α) :
    List (List α) :=
  groupLoop config size inputs [] [] 0

structure PackLayout where
  indexOffset : ℕ
  indexLength : ℕ
  totalLength : ℕ

/-- The checked layout of a pack from the sizes of its chunks. -/
def checkedLayout (sizes : List ℕ) : PackResult PackLayout := do
  let dataLength ← okOr (sizes.foldlM checkedAdd 0) (.invalidHeader "data length overflows")
  let indexOffset ← okOr (checkedAdd headerSize dataLength)
    (.invalidHeader "index offset overflows")
  let indexLength ← okOr (checkedMul sizes.length entrySize)
    (.invalidHeader "index length overflows")
  let totalLength ← okOr ((checkedAdd indexOffset indexLength).bind (checkedAdd · footerSize))
    (.invalidHeader "pack length overflows")
  rejectIf (maxPackBytes < totalLength) (.configuration "pack exceeds the format size limit")
  pure { indexOffset, indexLength, totalLength }

/-- The index bytes of one record. -/
def encodeEntry (entry : PackEntry) : PackResult Bytes := do
  let encodedHash ← decodeHash entry.encodedHash
  let rawHash ← decodeHash entry.rawHash
  pure [encodedHash, rawHash, leBytes 8 entry.offset, leBytes 8 entry.encodedLength,
    leBytes 8 entry.rawLength, leBytes 4 entry.compression, leBytes 4 entry.flags].flatten

def writeIndex : List PackEntry → Bytes → PackResult Bytes
  | [], buffer => pure buffer
  | entry :: rest, buffer => do
    let record ← encodeEntry entry
    writeIndex rest (buffer ++ record)

/-- Write the header fields over the first 64 bytes of a buffer. -/
def writeHeader (buffer : Bytes) (entryCount : ℕ) (layout : PackLayout) : Bytes :=
  let buffer := copyAt buffer 0 headerMagic
  let buffer := copyAt buffer 8 (leBytes 2 formatVersion)
  let buffer := copyAt buffer 10 (leBytes 2 0)
  let buffer := copyAt buffer 12 (leBytes 4 headerSize)
  let buffer := copyAt buffer 16 (leBytes 8 entryCount)
  let buffer := copyAt buffer 24 (leBytes 8 headerSize)
  let buffer := copyAt buffer 32 (leBytes 8 layout.indexOffset)
  copyAt buffer 40 (leBytes 8 layout.indexLength)

/-! ### Building in memory -/

/-- The loop of `build_artifact` that appends the chunks and places their records. -/
def appendChunks : List PackInput → Bytes → ℕ → PackResult (Bytes × List PackEntry)
  | [], buffer, _ => pure (buffer, [])
  | input :: rest, buffer, offset => do
    let encodedLength := input.encodedBytes.length
    let entry : PackEntry :=
      { encodedHash := input.encodedHash, rawHash := input.rawHash, offset, encodedLength,
        rawLength := input.rawSize, compression := compressionZstd, flags := 0 }
    let next ← okOr (checkedAdd offset encodedLength) (.invalidHeader "chunk offset overflows")
    let (buffer, entries) ← appendChunks rest (buffer ++ input.encodedBytes) next
    pure (buffer, entry :: entries)

/-- `build_artifact`, in a build with debug assertions. -/
def buildArtifact (hash : Bytes → Digest) (inputs : List PackInput) : PackResult PackArtifact := do
  let layout ← checkedLayout (encodedSizes inputs)
  let (buffer, entries) ← appendChunks inputs (List.replicate headerSize 0) headerSize
  let indexStart := buffer.length
  let buffer ← writeIndex entries buffer
  panicIf (buffer.length - indexStart ≠ layout.indexLength)
  let indexHash := hash (buffer.drop indexStart)
  let buffer := buffer ++ footerMagic
  let buffer := buffer ++ leBytes 2 formatVersion
  let buffer := buffer ++ leBytes 2 0
  let buffer := buffer ++ leBytes 8 layout.indexOffset
  let buffer := buffer ++ leBytes 8 layout.indexLength
  let buffer := buffer ++ leBytes 8 entries.length
  let buffer := buffer ++ leBytes 4 0
  let buffer := buffer ++ indexHash.bytes
  let bytes := writeHeader buffer entries.length layout
  pure { packHash := (hash bytes).hex, bytes, entries }

namespace PackBuilder

/-- `PackBuilder::new`. -/
def new (config : PackConfig) : PackResult PackBuilder := do
  config.validate
  pure { config, inputs := [] }

/-- `PackBuilder::push`. -/
def push (hash : Bytes → Digest) (builder : PackBuilder) (input : PackInput) :
    PackResult PackBuilder := do
  validateHash "encoded" input.encodedHash
  validateHash "raw" input.rawHash
  rejectIf (maxDeclaredChunkBytes < input.rawSize ∨
    maxDeclaredChunkBytes < input.encodedBytes.length)
    (.configuration "chunk exceeds the maximum declared size")
  let actual := (hash input.encodedBytes).hex
  rejectIf (actual ≠ input.encodedHash) (.chunkHashMismatch input.encodedHash actual)
  rejectIf (∃ item ∈ builder.inputs, item.encodedHash = input.encodedHash)
    (.invalidIndex ("duplicate encoded hash " ++ String.ofList input.encodedHash))
  rejectIf (builder.config.maxBytes < input.encodedBytes.length)
    (.configuration ("chunk " ++ String.ofList input.encodedHash ++
      " is larger than the maximum pack size"))
  pure { builder with inputs := builder.inputs ++ [input] }

def pushAll (hash : Bytes → Digest) (builder : PackBuilder) (inputs : List PackInput) :
    PackResult PackBuilder :=
  inputs.foldlM (push hash) builder

/-- `PackBuilder::build`. -/
def build (hash : Bytes → Digest) (builder : PackBuilder) : PackResult (List PackArtifact) :=
  let sorted := builder.inputs.insertionSort fun left right ↦ left.encodedHash ≤ right.encodedHash
  (groupInputs builder.config (fun input ↦ input.encodedBytes.length) sorted).mapM
    (buildArtifact hash)

end PackBuilder

def buildPacks (hash : Bytes → Digest) (inputs : List PackInput) (config : PackConfig) :
    PackResult (List PackArtifact) := do
  let builder ← PackBuilder.new config
  let builder ← builder.pushAll hash inputs
  builder.build hash

/-! ### Grouping -/

section Grouping

variable {α β : Type} (config : PackConfig)

theorem flatten_groupLoop (size : α → ℕ) (inputs : List α) (groups : List (List α))
    (current : List α) (currentBytes : ℕ) :
    (groupLoop config size inputs groups current currentBytes).flatten =
      groups.flatten ++ (current ++ inputs) := by
  induction inputs generalizing groups current currentBytes with
  | nil =>
    rw [groupLoop]
    split_ifs with hempty
    · simp [isEmpty_iff.mp hempty]
    · simp
  | cons input rest ih =>
    rw [groupLoop]
    split_ifs <;> simp [ih]

theorem flatten_groupInputs (size : α → ℕ) (inputs : List α) :
    (groupInputs config size inputs).flatten = inputs :=
  flatten_groupLoop config size inputs [] [] 0

theorem groupLoop_map (f : α → β) (size : β → ℕ) (inputs : List α) (groups : List (List α))
    (current : List α) (currentBytes : ℕ) :
    groupLoop config size (inputs.map f) (groups.map (List.map f)) (current.map f) currentBytes =
      (groupLoop config (fun input ↦ size (f input)) inputs groups current currentBytes).map
        (List.map f) := by
  induction inputs generalizing groups current currentBytes with
  | nil =>
    simp only [map_nil, groupLoop, isEmpty_map]
    split_ifs <;> simp
  | cons input rest ih =>
    simp only [map_cons, groupLoop, isEmpty_map]
    split_ifs
    · rw [← ih]
      simp
    · rw [← ih]
      simp

theorem groupLoop_congr {first second : α → ℕ} {inputs : List α}
    (h : ∀ input ∈ inputs, first input = second input) (groups : List (List α))
    (current : List α) (currentBytes : ℕ) :
    groupLoop config first inputs groups current currentBytes =
      groupLoop config second inputs groups current currentBytes := by
  induction inputs generalizing groups current currentBytes with
  | nil => rfl
  | cons input rest ih =>
    have hrest := ih fun other hother ↦ h other (mem_cons_of_mem _ hother)
    simp only [groupLoop, h input mem_cons_self, hrest]

end Grouping

/-! ### Layout -/

/-- The layout of a pack with chunks of the given sizes. -/
def layoutOf (sizes : List ℕ) : PackLayout where
  indexOffset := headerSize + sizes.sum
  indexLength := sizes.length * entrySize
  totalLength := headerSize + sizes.sum + sizes.length * entrySize + footerSize

theorem checkedLayout_eq_ok {sizes : List ℕ} {layout : PackLayout} :
    checkedLayout sizes = .ok layout ↔
      (layoutOf sizes).totalLength ≤ maxPackBytes ∧ layoutOf sizes = layout := by
  have hsmall : maxPackBytes < u64Size := by decide
  obtain ⟨indexOffset, indexLength, totalLength⟩ := layout
  simp only [checkedLayout, bind_eq_ok, okOr_eq_ok, foldlM_checkedAdd (show 0 < u64Size by decide),
    checkedAdd_eq_some, checkedMul_eq_some, Option.bind_eq_some_iff, rejectIf_eq_ok, pure_eq_ok,
    not_lt, layoutOf, PackLayout.mk.injEq, Nat.zero_add, and_assoc, exists_and_left,
    exists_eq_left', exists_const]
  constructor
  · rintro ⟨-, -, -, -, -, hmax, hfields⟩
    exact ⟨hmax, hfields⟩
  · rintro ⟨hmax, hfields⟩
    refine ⟨?_, ?_, ?_, ?_, ?_, hmax, hfields⟩ <;> omega

/-- The index records of inputs placed one after the other from an offset on. -/
def placeEntries : ℕ → List PackInput → List PackEntry
  | _, [] => []
  | offset, input :: rest =>
    { encodedHash := input.encodedHash, rawHash := input.rawHash, offset,
      encodedLength := input.encodedBytes.length, rawLength := input.rawSize,
      compression := compressionZstd, flags := 0 } ::
      placeEntries (offset + input.encodedBytes.length) rest

theorem appendChunks_of_fits {inputs : List PackInput} {buffer : Bytes} {offset : ℕ}
    (hfits : offset + (inputs.map fun input ↦ input.encodedBytes.length).sum < u64Size) :
    appendChunks inputs buffer offset =
      .ok (buffer ++ inputs.flatMap PackInput.encodedBytes, placeEntries offset inputs) := by
  induction inputs generalizing buffer offset with
  | nil => simp [appendChunks, placeEntries, pure, Except.pure]
  | cons input rest ih =>
    rw [map_cons, sum_cons] at hfits
    simp only [appendChunks, bind_eq_ok, okOr_eq_ok, checkedAdd_eq_some, pure_eq_ok]
    refine ⟨_, ⟨by omega, rfl⟩, _, ih (by omega), ?_⟩
    simp [placeEntries]

theorem length_placeEntries (offset : ℕ) (inputs : List PackInput) :
    (placeEntries offset inputs).length = inputs.length := by
  induction inputs generalizing offset with
  | nil => rfl
  | cons input rest ih => simp [placeEntries, ih]

theorem placeEntries_concat (offset : ℕ) (inputs : List PackInput) (input : PackInput) :
    placeEntries offset (inputs ++ [input]) = placeEntries offset inputs ++
      placeEntries (offset + (encodedSizes inputs).sum) [input] := by
  induction inputs generalizing offset with
  | nil => rfl
  | cons first rest ih =>
    have hsum : offset + (encodedSizes (first :: rest)).sum =
        offset + first.encodedBytes.length + (encodedSizes rest).sum := by
      rw [encodedSizes, map_cons, sum_cons, ← Nat.add_assoc]
      rfl
    rw [cons_append, placeEntries, placeEntries, ih, hsum]
    rfl

/-! ### Records, header and footer -/

variable {entries : List PackEntry}

theorem writeIndex_eq_ok {buffer result : Bytes} :
    writeIndex entries buffer = .ok result ↔
      ∃ records, entries.mapM encodeEntry = .ok records ∧ result = buffer ++ records.flatten := by
  induction entries generalizing buffer with
  | nil =>
    simp only [writeIndex, mapM_nil, pure_eq_ok]
    constructor
    · rintro rfl
      exact ⟨[], rfl, by simp⟩
    · rintro ⟨records, rfl, rfl⟩
      simp
  | cons entry rest ih =>
    simp only [writeIndex, mapM_cons, bind_eq_ok, pure_eq_ok, ih]
    constructor
    · rintro ⟨record, hrecord, records, hrecords, rfl⟩
      exact ⟨record :: records, ⟨record, hrecord, records, hrecords, rfl⟩, by simp⟩
    · rintro ⟨-, ⟨record, hrecord, records, hrecords, rfl⟩, rfl⟩
      exact ⟨record, hrecord, records, hrecords, by simp⟩

/-- The fields of an index record fit their widths. -/
structure EntryFits (entry : PackEntry) : Prop where
  encodedHash : IsHash entry.encodedHash
  rawHash : IsHash entry.rawHash
  offset : entry.offset < 256 ^ 8
  encodedLength : entry.encodedLength < 256 ^ 8
  rawLength : entry.rawLength < 256 ^ 8
  compression : entry.compression < 256 ^ 4
  flags : entry.flags < 256 ^ 4

theorem encodeEntry_of_fits {entry : PackEntry} (h : EntryFits entry) :
    ∃ record, encodeEntry entry = .ok record ∧ record.length = entrySize ∧
      entryAt record = entry := by
  obtain ⟨encoded, hencoded, hencodedLength, hencodedText⟩ := decodeHash_of_isHash h.encodedHash
  obtain ⟨raw, hraw, hrawLength, hrawText⟩ := decodeHash_of_isHash h.rawHash
  have hfield := slice_flatten [encoded, raw, leBytes 8 entry.offset, leBytes 8 entry.encodedLength,
      leBytes 8 entry.rawLength, leBytes 4 entry.compression, leBytes 4 entry.flags]
  simp only [blockOffset] at hfield
  refine ⟨[encoded, raw, leBytes 8 entry.offset, leBytes 8 entry.encodedLength,
    leBytes 8 entry.rawLength, leBytes 4 entry.compression, leBytes 4 entry.flags].flatten,
    ?_, ?_, ?_⟩
  · simp only [encodeEntry, bind_eq_ok, pure_eq_ok]
    exact ⟨encoded, hencoded, raw, hraw, rfl⟩
  · simp [hencodedLength, hrawLength, entrySize]
  · simp only [entryAt, uintAt]
    rw [hfield 0 0 32 (by simp) (by simp) (by simp [hencodedLength]),
      hfield 1 32 32 (by simp) (by simp [hencodedLength]) (by simp [hrawLength]),
      hfield 2 64 8 (by simp) (by simp [hencodedLength, hrawLength]) (by simp),
      hfield 3 72 8 (by simp) (by simp [hencodedLength, hrawLength]) (by simp),
      hfield 4 80 8 (by simp) (by simp [hencodedLength, hrawLength]) (by simp),
      hfield 5 88 4 (by simp) (by simp [hencodedLength, hrawLength]) (by simp),
      hfield 6 92 4 (by simp) (by simp [hencodedLength, hrawLength]) (by simp)]
    simp only [getElem_cons_zero, getElem_cons_succ, hencodedText, hrawText,
      leValue_leBytes h.offset, leValue_leBytes h.encodedLength, leValue_leBytes h.rawLength,
      leValue_leBytes h.compression, leValue_leBytes h.flags]

def headerFields (entryCount : ℕ) (layout : PackLayout) : List Bytes :=
  [headerMagic, leBytes 2 formatVersion, leBytes 2 0, leBytes 4 headerSize, leBytes 8 entryCount,
    leBytes 8 headerSize, leBytes 8 layout.indexOffset, leBytes 8 layout.indexLength,
    List.replicate 16 0]

def footerFields (entryCount : ℕ) (layout : PackLayout) (indexHash : Digest) : List Bytes :=
  [footerMagic, leBytes 2 formatVersion, leBytes 2 0, leBytes 8 layout.indexOffset,
    leBytes 8 layout.indexLength, leBytes 8 entryCount, leBytes 4 0, indexHash.bytes]

/-- The bytes of a pack with the given data region and index records. -/
def packBytes (hash : Bytes → Digest) (layout : PackLayout) (data : Bytes)
    (records : List Bytes) : Bytes :=
  (headerFields records.length layout).flatten ++ (data ++ (records.flatten ++
    (footerFields records.length layout (hash records.flatten)).flatten))

theorem length_headerFields (entryCount : ℕ) (layout : PackLayout) :
    (headerFields entryCount layout).flatten.length = headerSize := by
  simp [headerFields, headerMagic, headerSize]

theorem length_footerFields (entryCount : ℕ) (layout : PackLayout) (indexHash : Digest) :
    (footerFields entryCount layout indexHash).flatten.length = footerSize := by
  simp [footerFields, footerMagic, footerSize, indexHash.length_eq]

theorem writeHeader_zeros (entryCount : ℕ) (layout : PackLayout) (rest : Bytes) :
    writeHeader (List.replicate headerSize 0 ++ rest) entryCount layout =
      (headerFields entryCount layout).flatten ++ rest := by
  have hzeros : (List.replicate headerSize 0 ++ rest : Bytes) =
      [List.replicate 8 0, List.replicate 2 0, List.replicate 2 0, List.replicate 4 0,
        List.replicate 8 0, List.replicate 8 0, List.replicate 8 0, List.replicate 8 0,
        List.replicate 16 0, rest].flatten := by
    simp [headerSize, replicate_succ]
  simp only [writeHeader, hzeros]
  rw [copyAt_flatten _ 0 0, copyAt_flatten _ 1 8, copyAt_flatten _ 2 10, copyAt_flatten _ 3 12,
    copyAt_flatten _ 4 16, copyAt_flatten _ 5 24, copyAt_flatten _ 6 32, copyAt_flatten _ 7 40]
  · simp [headerFields]
  all_goals simp [blockOffset, headerMagic]

theorem length_packBytes (hash : Bytes → Digest) (layout : PackLayout) (data : Bytes)
    (records : List Bytes) : (packBytes hash layout data records).length =
      headerSize + data.length + records.flatten.length + footerSize := by
  simp only [packBytes, length_append, length_headerFields, length_footerFields]
  omega

/-! ### Where the parts of a pack lie -/

variable {start : ℕ}

section Parts

variable (hash : Bytes → Digest) (layout : PackLayout) (data : Bytes) (records : List Bytes)

variable {length : ℕ}

theorem slice_header (h : start + length ≤ headerSize) :
    slice (packBytes hash layout data records) start length =
      slice (headerFields records.length layout).flatten start length :=
  slice_append_left _ (by rwa [length_headerFields])

theorem slice_data (h : start + length ≤ data.length) :
    slice (packBytes hash layout data records) (headerSize + start) length =
      slice data start length := by
  rw [packBytes, ← length_headerFields records.length layout, slice_append_right,
    slice_append_left _ h]

theorem slice_index (h : start + length ≤ records.flatten.length) :
    slice (packBytes hash layout data records) (headerSize + data.length + start) length =
      slice records.flatten start length := by
  rw [packBytes, ← length_headerFields records.length layout, Nat.add_assoc, slice_append_right,
    slice_append_right, slice_append_left _ h]

theorem slice_footer (start length : ℕ) :
    slice (packBytes hash layout data records)
        ((packBytes hash layout data records).length - footerSize + start) length =
      slice (footerFields records.length layout (hash records.flatten)).flatten start length := by
  have hstart : (packBytes hash layout data records).length - footerSize + start =
      (headerFields records.length layout).flatten.length +
        (data.length + (records.flatten.length + start)) := by
    rw [length_packBytes, length_headerFields]
    omega
  rw [hstart, packBytes, slice_append_right, slice_append_right, slice_append_right]

end Parts

/-- The records of an index: each is written in 96 bytes from which it is read back. -/
def RecordsOf (entries : List PackEntry) (records : List Bytes) : Prop :=
  List.Forall₂ (fun entry record ↦ record.length = entrySize ∧ entryAt record = entry)
    entries records

theorem RecordsOf.length_flatten {records : List Bytes} (h : RecordsOf entries records) :
    records.flatten.length = entries.length * entrySize := by
  rw [List.Forall₂.length_eq h]
  refine length_flatten_of_width fun record hrecord ↦ ?_
  obtain ⟨position, hposition, rfl⟩ := getElem_of_mem hrecord
  exact (forall₂_iff_get.mp h).2 position (by rwa [List.Forall₂.length_eq h]) hposition |>.1

theorem RecordsOf.slice_record {records : List Bytes} (h : RecordsOf entries records) {position : ℕ}
    (hposition : position < entries.length) :
    entryAt (slice records.flatten (position * entrySize) entrySize) = entries[position] := by
  have hlength := List.Forall₂.length_eq h
  have hwidth : ∀ record ∈ records, record.length = entrySize := by
    intro record hrecord
    obtain ⟨position, hposition, rfl⟩ := getElem_of_mem hrecord
    exact (forall₂_iff_get.mp h).2 position (by rwa [hlength]) hposition |>.1
  have hrecord := (forall₂_iff_get.mp h).2 position hposition (by rwa [← hlength])
  rw [slice_flatten records position _ _ (by rwa [← hlength])
    (blockOffset_of_width hwidth (by omega)).symm hrecord.1.symm]
  exact hrecord.2

theorem wellFormedPack_packBytes {hash : Bytes → Digest} {layout : PackLayout} {data : Bytes}
    {records : List Bytes} (hrecords : RecordsOf entries records)
    (hoffset : layout.indexOffset = headerSize + data.length)
    (hlength : layout.indexLength = entries.length * entrySize)
    (hfits : headerSize + data.length + entries.length * entrySize + footerSize ≤ maxPackBytes)
    (hsorted : entries.Pairwise fun left right ↦ left.encodedHash < right.encodedHash)
    (hbounds : ∀ entry ∈ entries, EntryBounds layout.indexOffset entry)
    (hoverlap : NonOverlapping entries) :
    WellFormedPack hash (packBytes hash layout data records) entries := by
  have hcount := List.Forall₂.length_eq hrecords
  have hindex := hrecords.length_flatten
  have htotal := length_packBytes hash layout data records
  have hsmall : maxPackBytes < 256 ^ 8 := by decide
  have hentrySize : entrySize = 96 := rfl
  have hheader (position start length : ℕ) (hposition : position < 9)
      (hstart : start = blockOffset (headerFields records.length layout) position)
      (hblock : length = ((headerFields records.length layout).get ⟨position, hposition⟩).length)
      (hinside : start + length ≤ headerSize) :
      slice (packBytes hash layout data records) start length =
        (headerFields records.length layout).get ⟨position, hposition⟩ := by
    rw [slice_header _ _ _ _ hinside]
    exact slice_flatten (headerFields records.length layout) position start length hposition hstart hblock
  have hfooter (position start length : ℕ) (hposition : position < 8)
      (hstart : start =
        blockOffset (footerFields records.length layout (hash records.flatten)) position)
      (hblock : length = ((footerFields records.length layout (hash records.flatten)).get
        ⟨position, hposition⟩).length) :
      slice (packBytes hash layout data records)
          ((packBytes hash layout data records).length - footerSize + start) length =
        (footerFields records.length layout (hash records.flatten)).get
          ⟨position, hposition⟩ := by
    rw [slice_footer]
    exact slice_flatten (footerFields records.length layout (hash records.flatten)) position start
      length hposition hstart hblock
  have hindexOffset : uintAt 8 (packBytes hash layout data records) 32 = layout.indexOffset := by
    rw [uintAt, hheader 6 32 8 (by decide) rfl rfl (by decide)]
    exact leValue_leBytes (by omega)
  have hcountValue : leValue (leBytes 8 records.length) = entries.length := by
    rw [← hcount]
    refine leValue_leBytes ?_
    rw [hentrySize] at hfits
    omega
  have hlengthValue : leValue (leBytes 8 layout.indexLength) = entries.length * entrySize := by
    rw [← hlength]
    exact leValue_leBytes (by omega)
  constructor
  case size_le => omega
  case le_maxPackBytes => omega
  case header_magic => exact hheader 0 0 8 (by decide) rfl rfl (by decide)
  case header_version => rw [uintAt, hheader 1 8 2 (by decide) rfl rfl (by decide)]; rfl
  case header_length => rw [uintAt, hheader 3 12 4 (by decide) rfl rfl (by decide)]; rfl
  case entry_count =>
    rw [uintAt, hheader 4 16 8 (by decide) rfl rfl (by decide)]
    exact hcountValue
  case data_offset => rw [uintAt, hheader 5 24 8 (by decide) rfl rfl (by decide)]; rfl
  case index_length =>
    rw [uintAt, hheader 7 40 8 (by decide) rfl rfl (by decide)]
    exact hlengthValue
  case footer_magic => exact hfooter 0 0 8 (by decide) rfl rfl
  case footer_version => rw [uintAt, hfooter 1 8 2 (by decide) rfl rfl]; rfl
  case footer_index_offset =>
    rw [hindexOffset, uintAt, hfooter 3 12 8 (by decide) rfl rfl]
    exact leValue_leBytes (by omega)
  case footer_index_length =>
    rw [uintAt, hfooter 4 20 8 (by decide) rfl rfl]
    exact hlengthValue
  case footer_entry_count =>
    rw [uintAt, hfooter 5 28 8 (by decide) rfl rfl]
    exact hcountValue
  case le_index_offset => omega
  case index_end => omega
  case index_digest =>
    rw [hfooter 7 40 32 (by decide) rfl (hash records.flatten).length_eq.symm, hindexOffset,
      hoffset, ← Nat.add_zero (headerSize + data.length), slice_index _ _ _ _ (by omega), ← hindex]
    rw [slice, drop_zero, take_length]
    rfl
  case entry_eq =>
    intro position hposition
    have hinside : position * entrySize + entrySize ≤ records.flatten.length := by
      rw [hindex, ← Nat.succ_mul]
      exact Nat.mul_le_mul_right _ hposition
    rw [hindexOffset, hoffset, slice_index _ _ _ _ hinside, hrecords.slice_record hposition]
  case sorted => exact hsorted
  case bounds => rwa [hindexOffset]
  case nonOverlapping => exact hoverlap

theorem mapM_encodeEntry_of_fits (hfits : ∀ entry ∈ entries, EntryFits entry) :
    ∃ records, entries.mapM encodeEntry = .ok records ∧ RecordsOf entries records := by
  induction entries with
  | nil => exact ⟨[], rfl, List.Forall₂.nil⟩
  | cons entry rest ih =>
    obtain ⟨record, hrecord, hlength, hentry⟩ := encodeEntry_of_fits (hfits entry mem_cons_self)
    obtain ⟨records, hrecords, hrest⟩ := ih fun other hother ↦
      hfits other (mem_cons_of_mem _ hother)
    refine ⟨record :: records, ?_, List.Forall₂.cons ⟨hlength, hentry⟩ hrest⟩
    simp only [mapM_cons, bind_eq_ok, pure_eq_ok]
    exact ⟨record, hrecord, records, hrecords, rfl⟩

/-! ### Placed chunks -/

/-- An index record describes an input and its place in the data region, which starts at `base`. -/
structure Placed (base : ℕ) (data : Bytes) (input : PackInput) (entry : PackEntry) : Prop where
  encodedHash_eq : entry.encodedHash = input.encodedHash
  rawHash_eq : entry.rawHash = input.rawHash
  encodedLength_eq : entry.encodedLength = input.encodedBytes.length
  rawLength_eq : entry.rawLength = input.rawSize
  compression_eq : entry.compression = compressionZstd
  flags_eq : entry.flags = 0
  le_offset : base ≤ entry.offset
  end_le : entry.offset + entry.encodedLength ≤ base + data.length
  slice_eq : slice data (entry.offset - base) entry.encodedLength = input.encodedBytes

theorem placed_placeEntries (base : ℕ) (before : Bytes) (inputs : List PackInput) :
    List.Forall₂ (Placed base (before ++ inputs.flatMap PackInput.encodedBytes)) inputs
      (placeEntries (base + before.length) inputs) := by
  induction inputs generalizing before with
  | nil => exact List.Forall₂.nil
  | cons input rest ih =>
    have hrest := ih (before ++ input.encodedBytes)
    rw [append_assoc, ← flatMap_cons, length_append, ← Nat.add_assoc] at hrest
    refine List.Forall₂.cons ?_ hrest
    constructor
    case slice_eq =>
      rw [Nat.add_sub_cancel_left, flatMap_cons]
      exact slice_block _ _ _ rfl rfl
    case end_le =>
      simp only [length_append, flatMap_cons]
      omega
    case le_offset => exact Nat.le_add_right _ _
    all_goals rfl

theorem le_offset_placeEntries {inputs : List PackInput} :
    ∀ entry ∈ placeEntries start inputs, start ≤ entry.offset := by
  induction inputs generalizing start with
  | nil => simp [placeEntries]
  | cons input rest ih =>
    intro entry hentry
    rcases mem_cons.mp hentry with rfl | hrest
    · exact le_rfl
    · exact le_trans (Nat.le_add_right _ _) (ih entry hrest)

theorem pairwise_placeEntries (start : ℕ) (inputs : List PackInput) :
    (placeEntries start inputs).Pairwise fun left right ↦
      left.offset + left.encodedLength ≤ right.offset := by
  induction inputs generalizing start with
  | nil => exact List.Pairwise.nil
  | cons input rest ih => exact List.Pairwise.cons le_offset_placeEntries (ih _)

/-- The index is already in the order of offsets, also around chunks without bytes, which share
the offset of their successor: the stable sort leaves it as it is. -/
theorem nonOverlapping_placeEntries (start : ℕ) (inputs : List PackInput) :
    NonOverlapping (placeEntries start inputs) := by
  have hpairwise := pairwise_placeEntries start inputs
  have hsorted : sortByOffset (placeEntries start inputs) = placeEntries start inputs :=
    List.Pairwise.insertionSort_eq (hpairwise.imp fun h ↦ le_trans (Nat.le_add_right _ _) h)
  rw [NonOverlapping, hsorted]
  exact hpairwise.isChain

theorem sorted_placeEntries {inputs : List PackInput}
    (hsorted : inputs.Pairwise fun left right ↦ left.encodedHash < right.encodedHash) :
    (placeEntries start inputs).Pairwise fun left right ↦ left.encodedHash < right.encodedHash := by
  have hmap : (placeEntries start inputs).map PackEntry.encodedHash =
      inputs.map PackInput.encodedHash := by
    clear hsorted
    induction inputs generalizing start with
    | nil => rfl
    | cons input rest ih => rw [placeEntries, map_cons, map_cons, ih]
  rw [← pairwise_map (f := PackInput.encodedHash)] at hsorted
  rw [← pairwise_map (f := PackEntry.encodedHash), hmap]
  exact hsorted

/-! ### The artifact of a group -/

variable {input : PackInput} {artifact : PackArtifact}

/-- What `PackBuilder::push` has checked of an input. -/
structure ValidInput (hash : Bytes → Digest) (input : PackInput) : Prop where
  encodedHash : IsHash input.encodedHash
  rawHash : IsHash input.rawHash
  rawSize_le : input.rawSize ≤ maxDeclaredChunkBytes
  encodedSize_le : input.encodedBytes.length ≤ maxDeclaredChunkBytes
  hash_eq : (hash input.encodedBytes).hex = input.encodedHash

/-- The artifact that consists of the given inputs and index records. -/
def artifactOf (hash : Bytes → Digest) (inputs : List PackInput) (records : List Bytes) :
    PackArtifact :=
  let bytes := packBytes hash (layoutOf (encodedSizes inputs))
    (inputs.flatMap PackInput.encodedBytes) records
  { packHash := (hash bytes).hex, bytes, entries := placeEntries headerSize inputs }

theorem length_data (inputs : List PackInput) :
    (inputs.flatMap PackInput.encodedBytes).length = (encodedSizes inputs).sum := by
  rw [length_flatMap, encodedSizes]

theorem placed_artifact (inputs : List PackInput) :
    List.Forall₂ (Placed headerSize (inputs.flatMap PackInput.encodedBytes)) inputs
      (placeEntries headerSize inputs) :=
  placed_placeEntries headerSize [] inputs

section Artifact

variable {hash : Bytes → Digest} {inputs : List PackInput}

theorem exists_placed_of_mem_entries {entry : PackEntry}
    (hentry : entry ∈ placeEntries headerSize inputs) :
    ∃ input ∈ inputs, Placed headerSize (inputs.flatMap PackInput.encodedBytes) input entry := by
  obtain ⟨position, hposition, rfl⟩ := getElem_of_mem hentry
  have hplaced := forall₂_iff_get.mp (placed_artifact inputs)
  have hinput : position < inputs.length := by rwa [hplaced.1]
  exact ⟨inputs[position], getElem_mem hinput, hplaced.2 position hinput hposition⟩

theorem exists_placed_of_mem_inputs (hinput : input ∈ inputs) :
    ∃ entry ∈ placeEntries headerSize inputs,
      Placed headerSize (inputs.flatMap PackInput.encodedBytes) input entry := by
  obtain ⟨position, hposition, rfl⟩ := getElem_of_mem hinput
  have hplaced := forall₂_iff_get.mp (placed_artifact inputs)
  have hentry : position < (placeEntries headerSize inputs).length := by rwa [← hplaced.1]
  exact ⟨(placeEntries headerSize inputs)[position], getElem_mem hentry,
    hplaced.2 position hposition hentry⟩

theorem entryBounds_placeEntries (hvalid : ∀ input ∈ inputs, ValidInput hash input) :
    ∀ entry ∈ placeEntries headerSize inputs,
      EntryBounds (layoutOf (encodedSizes inputs)).indexOffset entry := by
  intro entry hentry
  obtain ⟨input, hinput, hplaced⟩ := exists_placed_of_mem_entries hentry
  have hinputValid := hvalid input hinput
  have hend := hplaced.end_le
  rw [length_data] at hend
  exact
    { rawLength_le := hplaced.rawLength_eq ▸ hinputValid.rawSize_le
      encodedLength_le := hplaced.encodedLength_eq ▸ hinputValid.encodedSize_le
      compression_eq := hplaced.compression_eq
      le_offset := hplaced.le_offset
      end_le := hend }

theorem entryFits_placeEntries (hvalid : ∀ input ∈ inputs, ValidInput hash input)
    (hfits : (layoutOf (encodedSizes inputs)).totalLength ≤ maxPackBytes) :
    ∀ entry ∈ placeEntries headerSize inputs, EntryFits entry := by
  intro entry hentry
  obtain ⟨input, hinput, hplaced⟩ := exists_placed_of_mem_entries hentry
  have hinputValid := hvalid input hinput
  have hbounds := entryBounds_placeEntries hvalid entry hentry
  have hend := hbounds.end_le
  have hraw := hbounds.rawLength_le
  have hencoded := hbounds.encodedLength_le
  have hpack : maxPackBytes < 256 ^ 8 := by decide
  have hchunk : maxDeclaredChunkBytes < 256 ^ 8 := by decide
  simp only [layoutOf] at hfits hend
  constructor
  case encodedHash => exact hplaced.encodedHash_eq ▸ hinputValid.encodedHash
  case rawHash => exact hplaced.rawHash_eq ▸ hinputValid.rawHash
  case offset => omega
  case encodedLength => omega
  case rawLength => omega
  case compression =>
    rw [hplaced.compression_eq]
    decide
  case flags =>
    rw [hplaced.flags_eq]
    decide

theorem length_of_mapM_encodeEntry {records : List Bytes}
    (h : entries.mapM encodeEntry = .ok records) : records.length = entries.length :=
  (List.Forall₂.length_eq (mapM_eq_ok.mp h)).symm

theorem writeHeader_pieces (layout : PackLayout) (data : Bytes) (records : List Bytes) :
    writeHeader ((List.replicate headerSize 0 ++ data ++ records.flatten) ++ footerMagic ++
        leBytes 2 formatVersion ++ leBytes 2 0 ++ leBytes 8 layout.indexOffset ++
        leBytes 8 layout.indexLength ++ leBytes 8 records.length ++ leBytes 4 0 ++
        (hash records.flatten).bytes) records.length layout =
      packBytes hash layout data records := by
  simp only [append_assoc, writeHeader_zeros, packBytes, footerFields, flatten_cons,
    flatten_nil, append_nil]

section

variable (hvalid : ∀ input ∈ inputs, ValidInput hash input)

include hvalid

/-- `build_artifact` on checked inputs: it fails exactly when the pack exceeds the size limit, and
otherwise assembles the parts. -/
theorem buildArtifact_eq_ok :
    buildArtifact hash inputs = .ok artifact ↔
      (layoutOf (encodedSizes inputs)).totalLength ≤ maxPackBytes ∧
        ∃ records, (placeEntries headerSize inputs).mapM encodeEntry = .ok records ∧
          artifactOf hash inputs records = artifact := by
  have hpack : maxPackBytes < u64Size := by decide
  by_cases hfits : (layoutOf (encodedSizes inputs)).totalLength ≤ maxPackBytes
  case neg =>
    refine iff_of_false (fun h ↦ ?_) fun h ↦ hfits h.1
    simp only [buildArtifact, bind_eq_ok, checkedLayout_eq_ok] at h
    obtain ⟨_, ⟨hlayout, _⟩, _⟩ := h
    exact hfits hlayout
  obtain ⟨records, hrecords, hrecordsOf⟩ :=
    mapM_encodeEntry_of_fits (entryFits_placeEntries hvalid hfits)
  have hlayout : checkedLayout (encodedSizes inputs) = .ok (layoutOf (encodedSizes inputs)) :=
    checkedLayout_eq_ok.mpr ⟨hfits, rfl⟩
  have hchunks : appendChunks inputs (List.replicate headerSize 0) headerSize = .ok
      (List.replicate headerSize 0 ++ inputs.flatMap PackInput.encodedBytes,
        placeEntries headerSize inputs) := by
    refine appendChunks_of_fits ?_
    simp only [layoutOf] at hfits
    change headerSize + (encodedSizes inputs).sum < u64Size
    omega
  have hindex : writeIndex (placeEntries headerSize inputs)
      (List.replicate headerSize 0 ++ inputs.flatMap PackInput.encodedBytes) = .ok
        (List.replicate headerSize 0 ++ inputs.flatMap PackInput.encodedBytes ++ records.flatten) :=
    writeIndex_eq_ok.mpr ⟨records, hrecords, rfl⟩
  have hcount := length_of_mapM_encodeEntry hrecords
  have hindexLength : records.flatten.length = (layoutOf (encodedSizes inputs)).indexLength := by
    rw [hrecordsOf.length_flatten, length_placeEntries, layoutOf, encodedSizes, length_map]
  have hbuild : buildArtifact hash inputs = .ok (artifactOf hash inputs records) := by
    simp only [buildArtifact, bind_eq_ok, panicIf_eq_ok, pure_eq_ok]
    refine ⟨_, hlayout, _, hchunks, _, hindex, (), ?_, ?_⟩
    · rw [not_not, ← hindexLength, length_append]
      exact Nat.add_sub_cancel_left _ _
    · simp only [drop_left, ← hcount, writeHeader_pieces]
      rfl
  rw [hbuild, hrecords]
  simp [hfits]

/-- The artifact of a group of checked inputs in strict order of encoded hash is a pack with
the index that the writer returns, and the data region holds every input. -/
theorem wellFormedPack_of_buildArtifact
    (hsorted : inputs.Pairwise fun left right ↦ left.encodedHash < right.encodedHash)
    (hbuild : buildArtifact hash inputs = .ok artifact) :
    WellFormedPack hash artifact.bytes artifact.entries ∧
      artifact.packHash = (hash artifact.bytes).hex ∧
      artifact.entries = placeEntries headerSize inputs := by
  obtain ⟨hfits, records, hrecords, rfl⟩ := (buildArtifact_eq_ok hvalid).mp hbuild
  obtain ⟨records', hrecords', hrecordsOf⟩ :=
    mapM_encodeEntry_of_fits (entryFits_placeEntries hvalid hfits)
  obtain rfl : records' = records := Except.ok.inj (hrecords'.symm.trans hrecords)
  refine ⟨?_, rfl, rfl⟩
  have hdata := length_data inputs
  have hcount : (placeEntries headerSize inputs).length = (encodedSizes inputs).length := by
    rw [length_placeEntries, encodedSizes, length_map]
  refine wellFormedPack_packBytes hrecordsOf ?_ ?_ ?_ (sorted_placeEntries hsorted)
    (entryBounds_placeEntries hvalid) (nonOverlapping_placeEntries _ _)
  · rw [hdata, layoutOf]
  · exact congrArg (· * entrySize) hcount.symm
  · change _ + (placeEntries headerSize inputs).length * entrySize + _ ≤ _
    rw [hdata, hcount]
    exact hfits

theorem slice_of_buildArtifact (hbuild : buildArtifact hash inputs = .ok artifact)
    (hinput : input ∈ inputs) :
    ∃ entry ∈ artifact.entries, entry.encodedHash = input.encodedHash ∧
      slice artifact.bytes entry.offset entry.encodedLength = input.encodedBytes := by
  obtain ⟨hfits, records, hrecords, rfl⟩ := (buildArtifact_eq_ok hvalid).mp hbuild
  obtain ⟨entry, hentry, hplaced⟩ := exists_placed_of_mem_inputs hinput
  refine ⟨entry, hentry, hplaced.encodedHash_eq, ?_⟩
  have hstart := hplaced.le_offset
  have hend := hplaced.end_le
  have hdata := slice_data hash (layoutOf (encodedSizes inputs))
    (inputs.flatMap PackInput.encodedBytes) records
    (show entry.offset - headerSize + entry.encodedLength ≤ _ by omega)
  rw [Nat.add_sub_cancel' hstart, hplaced.slice_eq] at hdata
  exact hdata

end

end Artifact

/-! ### The builder -/

namespace PackBuilder

variable {hash : Bytes → Digest}

variable {builder : PackBuilder}

theorem new_eq_ok {config : PackConfig} :
    new config = .ok builder ↔ ((0 < config.minBytes ∧ config.minBytes ≤ config.targetBytes ∧
        config.targetBytes ≤ config.maxBytes) ∧ config.maxBytes ≤ maxPackBytes) ∧
        builder = { config, inputs := [] } := by
  simp only [new, PackConfig.validate, bind_eq_ok, rejectIf_eq_ok, pure_eq_ok, not_or, not_lt,
    exists_const, ← Nat.pos_iff_ne_zero, and_assoc]
  simp only [eq_comm]

theorem push_eq_ok {next : PackBuilder} :
    builder.push hash input = .ok next ↔
      (ValidInput hash input ∧ input.encodedBytes.length ≤ builder.config.maxBytes) ∧
        (∀ item ∈ builder.inputs, item.encodedHash ≠ input.encodedHash) ∧
        next = { builder with inputs := builder.inputs ++ [input] } := by
  simp only [push, bind_eq_ok, validateHash_eq_ok, rejectIf_eq_ok, pure_eq_ok, not_or, not_lt,
    not_not, ne_eq, not_exists, not_and, exists_const]
  constructor
  · rintro ⟨hencoded, hraw, ⟨hrawSize, hencodedSize⟩, hhash, hnew, hmax, rfl⟩
    exact ⟨⟨⟨hencoded, hraw, hrawSize, hencodedSize, hhash⟩, hmax⟩, hnew, rfl⟩
  · rintro ⟨⟨hinput, hmax⟩, hnew, rfl⟩
    exact ⟨hinput.encodedHash, hinput.rawHash, ⟨hinput.rawSize_le, hinput.encodedSize_le⟩,
      hinput.hash_eq, hnew, hmax, rfl⟩

theorem pushAll_eq_ok {next : PackBuilder} {inputs : List PackInput} :
    builder.pushAll hash inputs = .ok next ↔ (∀ input ∈ inputs,
        ValidInput hash input ∧ input.encodedBytes.length ≤ builder.config.maxBytes) ∧
        (inputs.Pairwise fun left right ↦ left.encodedHash ≠ right.encodedHash) ∧
        (∀ input ∈ inputs, ∀ item ∈ builder.inputs, item.encodedHash ≠ input.encodedHash) ∧
        next = { builder with inputs := builder.inputs ++ inputs } := by
  induction inputs generalizing builder with
  | nil =>
    have hunfold : builder.pushAll hash [] = pure builder := rfl
    rw [hunfold, pure_eq_ok]
    simp [eq_comm]
  | cons input rest ih =>
    have hunfold : builder.pushAll hash (input :: rest) =
        builder.push hash input >>= fun pushed ↦ pushed.pushAll hash rest := rfl
    simp only [hunfold, bind_eq_ok, push_eq_ok, ih, forall_mem_cons, pairwise_cons]
    constructor
    · rintro ⟨-, ⟨hinput, hnew, rfl⟩, hrest, hdistinct, hfresh, rfl⟩
      refine ⟨⟨hinput, hrest⟩, ⟨fun other hother ↦ ?_, hdistinct⟩, ⟨hnew, fun other hother item
        hitem ↦ ?_⟩, by simp⟩
      · exact hfresh other hother input (mem_append_right _ mem_cons_self)
      · exact hfresh other hother item (mem_append_left _ hitem)
    · rintro ⟨⟨hinput, hrest⟩, ⟨hhead, hdistinct⟩, ⟨hnew, hfresh⟩, rfl⟩
      refine ⟨_, ⟨hinput, hnew, rfl⟩, hrest, hdistinct, fun other hother item hitem ↦ ?_, by simp⟩
      rcases mem_append.mp hitem with hold | hlast
      · exact hfresh other hother item hold
      · rw [mem_singleton.mp hlast]
        exact hhead other hother

/-- The inputs of a builder in the order in which they are packed. -/
def sortedInputs (inputs : List PackInput) : List PackInput :=
  inputs.insertionSort fun left right ↦ left.encodedHash ≤ right.encodedHash

theorem pairwise_sortedInputs {inputs : List PackInput}
    (hdistinct : inputs.Pairwise fun left right ↦ left.encodedHash ≠ right.encodedHash) :
    (sortedInputs inputs).Pairwise fun left right ↦ left.encodedHash < right.encodedHash := by
  have hle : (sortedInputs inputs).Pairwise fun left right ↦
      left.encodedHash ≤ right.encodedHash := pairwise_insertionSort _ _
  have hne : (sortedInputs inputs).Pairwise fun left right ↦ left.encodedHash ≠ right.encodedHash :=
    (perm_insertionSort _ inputs).symm.pairwise hdistinct fun h ↦ h.symm
  exact (hle.and hne).imp fun h ↦ lt_of_le_of_ne h.1 h.2

/-- The groups of inputs that become artifacts. -/
def groups (config : PackConfig) (inputs : List PackInput) : List (List PackInput) :=
  groupInputs config (fun input ↦ input.encodedBytes.length) (sortedInputs inputs)

theorem build_eq_ok {artifacts : List PackArtifact} :
    builder.build hash = .ok artifacts ↔
      List.Forall₂ (fun group artifact ↦ buildArtifact hash group = .ok artifact)
        (groups builder.config builder.inputs) artifacts :=
  mapM_eq_ok

section Groups

variable {config : PackConfig} {inputs : List PackInput}

theorem mem_groups : (∃ group ∈ groups config inputs, input ∈ group) ↔ input ∈ inputs := by
  rw [← mem_flatten, groups, flatten_groupInputs, sortedInputs, mem_insertionSort]

theorem pairwise_groups
    (hdistinct : inputs.Pairwise fun left right ↦ left.encodedHash ≠ right.encodedHash) :
    (∀ group ∈ groups config inputs, group.Pairwise fun left right ↦
      left.encodedHash < right.encodedHash) ∧
      (groups config inputs).Pairwise fun first second ↦ ∀ left ∈ first, ∀ right ∈ second,
        left.encodedHash < right.encodedHash := by
  rw [← pairwise_flatten, groups, flatten_groupInputs]
  exact pairwise_sortedInputs hdistinct

theorem group_unique
    (hdistinct : inputs.Pairwise fun left right ↦ left.encodedHash ≠ right.encodedHash)
    {first second : ℕ} (hfirst : first < (groups config inputs).length)
    (hsecond : second < (groups config inputs).length) {left right : PackInput}
    (hleft : left ∈ (groups config inputs)[first])
    (hright : right ∈ (groups config inputs)[second])
    (hhash : left.encodedHash = right.encodedHash) : first = second := by
  have hgroups : (groups config inputs).Pairwise fun first second ↦ ∀ left ∈ first,
      ∀ right ∈ second, left.encodedHash < right.encodedHash := (pairwise_groups hdistinct).2
  have hpairwise := pairwise_iff_getElem.mp hgroups
  rcases Nat.lt_trichotomy first second with hlt | heq | hgt
  · exact absurd hhash (ne_of_lt (hpairwise first second hfirst hsecond hlt left hleft right hright))
  · exact heq
  · exact absurd hhash.symm
      (ne_of_lt (hpairwise second first hsecond hfirst hgt right hright left hleft))

end Groups

end PackBuilder

/-- `build_packs` succeeds exactly on a valid configuration and checked chunks with distinct
hashes all of whose groups build. -/
theorem buildPacks_eq_ok {hash : Bytes → Digest} {inputs : List PackInput} {config : PackConfig}
    {artifacts : List PackArtifact} :
    buildPacks hash inputs config = .ok artifacts ↔ config.validate = .ok () ∧
        (∀ input ∈ inputs, ValidInput hash input ∧ input.encodedBytes.length ≤ config.maxBytes) ∧
        (inputs.Pairwise fun left right ↦ left.encodedHash ≠ right.encodedHash) ∧
        List.Forall₂ (fun group artifact ↦ buildArtifact hash group = .ok artifact)
          (PackBuilder.groups config inputs) artifacts := by
  simp only [buildPacks, PackBuilder.new, bind_eq_ok, pure_eq_ok, PackBuilder.pushAll_eq_ok,
    PackBuilder.build_eq_ok]
  constructor
  · rintro ⟨-, ⟨_, hconfig, rfl⟩, -, ⟨hvalid, hdistinct, -, rfl⟩, hbuild⟩
    exact ⟨hconfig, hvalid, hdistinct, hbuild⟩
  · rintro ⟨hconfig, hvalid, hdistinct, hbuild⟩
    exact ⟨_, ⟨(), hconfig, rfl⟩, _, ⟨hvalid, hdistinct, by simp, rfl⟩, hbuild⟩

theorem readEncoded_of_buildArtifact {hash : Bytes → Digest} {group : List PackInput}
    (hvalid : ∀ input ∈ group, ValidInput hash input)
    (hsorted : group.Pairwise fun left right ↦ left.encodedHash < right.encodedHash)
    (hbuild : buildArtifact hash group = .ok artifact) :
    ∃ reader, PackReader.parse hash artifact.bytes = .ok reader ∧
      reader.entries = artifact.entries ∧
      reader.verifyPackHash hash artifact.packHash = .ok () ∧
      (∀ input ∈ group, reader.readEncoded hash input.encodedHash = .ok input.encodedBytes) ∧
      ∀ encodedHash chunk, reader.readEncoded hash encodedHash = .ok chunk →
        ∃ input ∈ group, input.encodedHash = encodedHash := by
  obtain ⟨hpack, hpackHash, hentries⟩ := wellFormedPack_of_buildArtifact hvalid hsorted hbuild
  refine ⟨_, parse_of_wellFormedPack hpack, rfl, ?_, ?_, ?_⟩
  · simp only [PackReader.verifyPackHash, bind_eq_ok, validateHash_eq_ok, rejectIf_eq_ok, not_not,
      ne_eq, exists_const, hpackHash]
    exact ⟨Digest.isHash_hex _, trivial⟩
  · intro input hinput
    obtain ⟨entry, hentry, hhash, hslice⟩ := slice_of_buildArtifact hvalid hbuild hinput
    have hinputValid := hvalid input hinput
    rw [readEncoded_eq_ok hpack]
    exact ⟨entry, hentry, hinputValid.encodedHash, hhash, hslice.symm, hinputValid.hash_eq⟩
  · intro encodedHash chunk hread
    rw [readEncoded_eq_ok hpack] at hread
    obtain ⟨entry, hentry, -, hhash, -⟩ := hread
    obtain ⟨input, hinput, hplaced⟩ := exists_placed_of_mem_entries (hentries ▸ hentry)
    exact ⟨input, hinput, hplaced.encodedHash_eq.symm.trans hhash⟩

/-- The packs of a builder read back: every artifact parses to its index and passes the check of
its hash, every pushed chunk is read back from exactly one artifact, and every index record is
that of a pushed chunk. -/
theorem packRoundTrip_of_build (hash : Bytes → Digest) (config : PackConfig)
    (inputs : List PackInput) (start builder : PackBuilder) (artifacts : List PackArtifact)
    (hnew : PackBuilder.new config = .ok start)
    (hpush : start.pushAll hash inputs = .ok builder)
    (hbuild : builder.build hash = .ok artifacts) :
    (∀ artifact ∈ artifacts, ∃ reader, PackReader.parse hash artifact.bytes = .ok reader ∧
      reader.entries = artifact.entries ∧
      reader.verifyPackHash hash artifact.packHash = .ok ()) ∧
    (∀ input ∈ inputs, ∃! position : Fin artifacts.length, ∃ reader,
      PackReader.parse hash (artifacts.get position).bytes = .ok reader ∧
        reader.readEncoded hash input.encodedHash = .ok input.encodedBytes) ∧
    (∀ artifact ∈ artifacts, ∀ entry ∈ artifact.entries, ∃ input ∈ inputs,
      entry.encodedHash = input.encodedHash ∧ entry.rawHash = input.rawHash ∧
        entry.encodedLength = input.encodedBytes.length ∧ entry.rawLength = input.rawSize) := by
  obtain ⟨-, rfl⟩ := PackBuilder.new_eq_ok.mp hnew
  obtain ⟨hvalid, hdistinct, -, rfl⟩ := PackBuilder.pushAll_eq_ok.mp hpush
  rw [PackBuilder.build_eq_ok, nil_append, forall₂_iff_get] at hbuild
  obtain ⟨hcount, hbuild⟩ := hbuild
  have hlength : (PackBuilder.groups config inputs).length = artifacts.length := hcount
  have hgroup (position : ℕ) (hposition : position < (PackBuilder.groups config inputs).length) :
      ∀ input ∈ (PackBuilder.groups config inputs)[position], input ∈ inputs := fun input hinput ↦
    PackBuilder.mem_groups.mp ⟨_, getElem_mem hposition, hinput⟩
  have hread (position : ℕ) (hposition : position < (PackBuilder.groups config inputs).length)
      (hartifact : position < artifacts.length) :=
    readEncoded_of_buildArtifact
      (fun input hinput ↦ (hvalid input (hgroup position hposition input hinput)).1)
      ((PackBuilder.pairwise_groups hdistinct).1 _ (getElem_mem hposition))
      (hbuild position hposition hartifact)
  refine ⟨fun artifact hartifact ↦ ?_, fun input hinput ↦ ?_, fun artifact hartifact entry
    hentry ↦ ?_⟩
  · obtain ⟨position, hposition, rfl⟩ := getElem_of_mem hartifact
    obtain ⟨reader, hparse, hentries, hverify, -⟩ := hread position (by omega) hposition
    exact ⟨reader, hparse, hentries, hverify⟩
  · obtain ⟨group, hmem, hinputGroup⟩ :
        ∃ group ∈ PackBuilder.groups config inputs, input ∈ group :=
      PackBuilder.mem_groups.mpr hinput
    obtain ⟨position, hposition, rfl⟩ := getElem_of_mem hmem
    obtain ⟨reader, hparse, -, -, hfound, -⟩ := hread position hposition (by omega)
    refine ⟨⟨position, by omega⟩, ⟨reader, hparse, hfound input hinputGroup⟩, ?_⟩
    rintro ⟨other, hother⟩ ⟨otherReader, hotherParse, hotherRead⟩
    obtain ⟨reader', hparse', -, -, -, honly⟩ := hread other (by omega) hother
    obtain rfl : otherReader = reader' := Except.ok.inj (hotherParse.symm.trans hparse')
    obtain ⟨found, hfoundGroup, hhash⟩ := honly _ _ hotherRead
    have hotherGroup : other < (PackBuilder.groups config inputs).length := by omega
    exact Fin.ext (PackBuilder.group_unique hdistinct hotherGroup hposition hfoundGroup hinputGroup
      hhash)
  · obtain ⟨position, hposition, rfl⟩ := getElem_of_mem hartifact
    have hgroupPosition : position < (PackBuilder.groups config inputs).length := by omega
    obtain ⟨-, -, hentries⟩ := wellFormedPack_of_buildArtifact
      (fun input hinput ↦ (hvalid input (hgroup position hgroupPosition input hinput)).1)
      ((PackBuilder.pairwise_groups hdistinct).1 _ (getElem_mem hgroupPosition))
      (hbuild position hgroupPosition hposition)
    obtain ⟨input, hinput, hplaced⟩ := exists_placed_of_mem_entries (hentries ▸ hentry)
    exact ⟨input, hgroup position hgroupPosition input hinput, hplaced.encodedHash_eq,
      hplaced.rawHash_eq, hplaced.encodedLength_eq, hplaced.rawLength_eq⟩

def emptyDigest : Digest where
  bytes := [175, 19, 73, 185, 245, 249, 161, 166, 160, 64, 77, 234, 54, 220, 201, 73, 155, 203, 37,
    201, 173, 193, 18, 183, 204, 154, 147, 202, 228, 31, 50, 98]
  length_eq := rfl

/-- The digest of the index of the pack that holds one chunk without bytes. -/
def emptyChunkIndexDigest : Digest where
  bytes := [156, 128, 74, 132, 25, 51, 9, 70, 178, 249, 103, 13, 14, 220, 231, 111, 233, 139, 213,
    77, 213, 132, 145, 240, 228, 12, 149, 93, 35, 49, 36, 182]
  length_eq := rfl

/-- The digest of the pack that holds one chunk without bytes. -/
def emptyChunkPackDigest : Digest where
  bytes := [95, 139, 45, 219, 219, 42, 33, 205, 101, 63, 216, 143, 252, 202, 54, 178, 174, 161, 22,
    247, 217, 105, 230, 14, 18, 29, 230, 37, 152, 216, 83, 63]
  length_eq := rfl

/-- A hash function with the BLAKE3 digests of the pack that holds one chunk without bytes. -/
def sampleHash (bytes : Bytes) : Digest :=
  if bytes.length = 0 then emptyDigest
  else if bytes.length = 96 then emptyChunkIndexDigest
  else emptyChunkPackDigest

def emptyChunk : PackInput where
  encodedHash := emptyDigest.hex
  rawHash := emptyDigest.hex
  rawSize := 0
  encodedBytes := []

/-- The round trip of a chunk without bytes. -/
theorem packRoundTrip_of_build_emptyChunk :
    ∃ start builder artifacts, PackBuilder.new {} = .ok start ∧
      start.pushAll sampleHash [emptyChunk] = .ok builder ∧
      builder.build sampleHash = .ok artifacts ∧
      ∃! position : Fin artifacts.length, ∃ reader,
        PackReader.parse sampleHash (artifacts.get position).bytes = .ok reader ∧
          reader.readEncoded sampleHash emptyChunk.encodedHash = .ok emptyChunk.encodedBytes := by
  have hnew : PackBuilder.new {} = .ok { config := {}, inputs := [] } := rfl
  have hpush : PackBuilder.pushAll sampleHash { config := {}, inputs := [] } [emptyChunk] =
      .ok { config := {}, inputs := [emptyChunk] } := rfl
  have hsome : (PackBuilder.build sampleHash
      { config := {}, inputs := [emptyChunk] }).toOption.isSome = true := by decide +kernel
  cases hbuild : PackBuilder.build sampleHash { config := {}, inputs := [emptyChunk] } with
  | error fault =>
    rw [hbuild] at hsome
    exact absurd hsome Bool.false_ne_true
  | ok artifacts =>
    refine ⟨_, _, artifacts, hnew, hpush, hbuild, ?_⟩
    exact (packRoundTrip_of_build sampleHash {} [emptyChunk] _ _ artifacts hnew hpush hbuild).2.1
      emptyChunk mem_cons_self

end GameLauncher.Packs
