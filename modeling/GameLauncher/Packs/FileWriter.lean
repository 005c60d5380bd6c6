import GameLauncher.Foundation.FileTree
import GameLauncher.Foundation.Process
import GameLauncher.Packs.Builder

/-!
# The streaming pack writer

`write_packs_from_files` and `write_file_pack` of `launcher-packs`: packs written from chunk files
to a destination directory, hashed while they are written. The chunk files are read in parts of at
most one mebibyte; a `ReadPolicy` says how many bytes each read returns. The incremental BLAKE3
hasher is a parameter with its documented behaviour.

The grouping loop, the checked layout and the index writer are those of `Packs.Builder`; the header
and the footer are written by code of their own, which `streamHeader_eq` and `streamFooter_eq`
compare with the fields of the format.

`writePacksFromFiles_agrees` is the result. It needs the chunk files to lie apart from the names
that the writer uses in its destination: `writePacksFromFiles_fails_on_aliased` shows why.
-/

set_option autoImplicit false

namespace GameLauncher.Packs

open Foundation Fallible List Process FileTree

/-! ### Hashing and reading in parts -/

/-- An incremental form of a hash function: `blake3::Hasher`. -/
structure IncrementalHasher (hash : Bytes → Digest) where
  State : Type
  new : State
  update : State → Bytes → State
  finalize : State → Digest
  finalize_updates : ∀ parts : List Bytes, finalize (parts.foldl update new) = hash parts.flatten

/-- The hasher has seen exactly the given bytes. -/
def IncrementalHasher.Represents {hash : Bytes → Digest} (hasher : IncrementalHasher hash)
    (state : hasher.State) (bytes : Bytes) : Prop :=
  ∃ parts : List Bytes, state = parts.foldl hasher.update hasher.new ∧ parts.flatten = bytes

def readBufferSize : ℕ := 1024 * 1024

/-- How many bytes each read of a chunk file returns, by the bytes that remain. -/
structure ReadPolicy where
  count : Text → ℕ → ℕ
  count_pos : ∀ encodedHash remaining, 0 < remaining → 0 < count encodedHash remaining
  count_le : ∀ encodedHash remaining, count encodedHash remaining ≤ readBufferSize

/-- The parts in which successive reads return a source. -/
def ReadPolicy.parts (reads : ReadPolicy) (encodedHash : Text) : ℕ → Bytes → List Bytes
  | 0, _ => []
  | fuel + 1, source =>
    if source.isEmpty then []
    else
      let count := reads.count encodedHash source.length
      source.take count :: reads.parts encodedHash fuel (source.drop count)

/-! ### Inputs, artifacts and names -/

/-- An encoded chunk on disk. -/
structure PackFileInput where
  encodedHash : Text
  rawHash : Text
  rawSize : ℕ
  encodedSize : ℕ
  encodedPath : Path
  deriving DecidableEq, Repr

/-- A finished pack on disk. -/
structure PackFileArtifact where
  packHash : Text
  encodedSize : ℕ
  entries : List PackEntry
  deriving DecidableEq, Repr

/-- The file tree of the server, which compares names as they are. -/
abbrev Disk := FileTree id

/-- A computation on the disk with the errors of the pack crate. -/
abbrev DiskProcess (α : Type) := Process Disk (Fault PackError) α

/-- `.pack-{ordinal}.pack.part`. -/
def temporaryName (ordinal : ℕ) : Text :=
  (".pack-" ++ toString ordinal ++ ".pack.part").toList

/-- `{pack_hash}.pack`. -/
def packName (packHash : Text) : Text := packHash ++ ".pack"

/-! ### Steps -/

/-- A pure part of the writer. -/
def lift {α : Type} (outcome : PackResult α) : DiskProcess α := Process.query fun _ ↦ outcome

def displayPath (path : Path) : String := String.ofList (path.flatMap fun name ↦ '/' :: name)

def ioError (failure : IoFailure) : Fault PackError := .error (.io (reprStr failure))

/-- A file operation with its error mapped by `io_error`. -/
def diskStep (operation : Disk → Except IoFailure Disk) : DiskProcess Unit :=
  Process.step fun disk ↦
    match operation disk with
    | .ok made => (.ok (), made)
    | .error failure => (.error (ioError failure), disk)

/-- `let _ = fs::remove_file(..)`. -/
def removeFileQuietly (path : Path) : DiskProcess Unit :=
  Process.step fun disk ↦
    match disk.deleteFile path with
    | .ok made => (.ok (), made)
    | .error _ => (.ok (), disk)

section Writer

variable {hash : Bytes → Digest} (hasher : IncrementalHasher hash) (reads : ReadPolicy)

def writeHashed (output : Path) (state : hasher.State) (bytes : Bytes) :
    DiskProcess hasher.State := do
  diskStep (·.appendFile output bytes)
  pure (hasher.update state bytes)

/-- The header as the streaming writer fills it. -/
def streamHeader (entryCount : ℕ) (layout : PackLayout) : Bytes :=
  let header := List.replicate headerSize 0
  let header := copyAt header 0 headerMagic
  let header := copyAt header 8 (leBytes 2 formatVersion)
  let header := copyAt header 12 (leBytes 4 headerSize)
  let header := copyAt header 16 (leBytes 8 entryCount)
  let header := copyAt header 24 (leBytes 8 headerSize)
  let header := copyAt header 32 (leBytes 8 layout.indexOffset)
  copyAt header 40 (leBytes 8 layout.indexLength)

/-- The footer as the streaming writer fills it. -/
def streamFooter (entryCount : ℕ) (layout : PackLayout) (indexHash : Digest) : Bytes :=
  let footer := List.replicate footerSize 0
  let footer := copyAt footer 0 footerMagic
  let footer := copyAt footer 8 (leBytes 2 formatVersion)
  let footer := copyAt footer 12 (leBytes 8 layout.indexOffset)
  let footer := copyAt footer 20 (leBytes 8 layout.indexLength)
  let footer := copyAt footer 28 (leBytes 8 entryCount)
  copyAt footer 40 indexHash.bytes

/-- The state of the read loop: the hashers of the chunk and of the pack, and the bytes copied. -/
structure CopyState (hasher : IncrementalHasher hash) where
  chunk : hasher.State
  pack : hasher.State
  copied : ℕ

/-- The body of the read loop. -/
def copyPart (output : Path) (part : Bytes) (state : CopyState hasher) :
    DiskProcess (CopyState hasher) := do
  let chunk := hasher.update state.chunk part
  let pack ← writeHashed hasher output state.pack part
  let copied ← lift (okOr (checkedAdd state.copied part.length)
    (.invalidHeader "chunk size overflows"))
  pure { chunk, pack, copied }

/-- `File::open` of a chunk. -/
def openChunk (input : PackFileInput) : DiskProcess Bytes :=
  Process.query fun disk ↦
    match disk.content input.encodedPath with
    | some content => .ok content
    | none => .error (ioError .ioException)

/-- The state of the loop over the inputs of a group. -/
structure PackState (hasher : IncrementalHasher hash) where
  pack : hasher.State
  entries : List PackEntry
  offset : ℕ

/-- The body of the loop over the inputs of a group: one chunk is copied and its record placed.
A chunk file that is the output itself would be read while it grows, until the volume is full. -/
def copyChunk (output : Path) (input : PackFileInput) (state : PackState hasher) :
    DiskProcess (PackState hasher) := do
  let source ← openChunk input
  if input.encodedPath = output then Process.fail (ioError .ioException)
  else do
    let copied ← Process.forEach (copyPart hasher output)
      (reads.parts input.encodedHash source.length source)
      { chunk := hasher.new, pack := state.pack, copied := 0 }
    lift (rejectIf (copied.copied ≠ input.encodedSize)
      (.invalidIndex ("encoded chunk " ++ String.ofList input.encodedHash ++
        " changed size while packing")))
    let actual := (hasher.finalize copied.chunk).hex
    lift (rejectIf (actual ≠ input.encodedHash) (.chunkHashMismatch input.encodedHash actual))
    let entry : PackEntry :=
      { encodedHash := input.encodedHash, rawHash := input.rawHash, offset := state.offset,
        encodedLength := input.encodedSize, rawLength := input.rawSize,
        compression := compressionZstd, flags := 0 }
    let offset ← lift (okOr (checkedAdd state.offset input.encodedSize)
      (.invalidHeader "chunk offset overflows"))
    pure { pack := copied.pack, entries := state.entries ++ [entry], offset }

/-- The closure of `write_file_pack`: everything between `File::create` and the rename. -/
def writePackBody (inputs : List PackFileInput) (layout : PackLayout) (destination : Path)
    (temporary : Path) : DiskProcess PackFileArtifact := do
  diskStep (·.writeFile temporary [])
  let pack ← writeHashed hasher temporary hasher.new (streamHeader inputs.length layout)
  let state ← Process.forEach (copyChunk hasher reads temporary) inputs
    { pack, entries := [], offset := headerSize }
  let index ← lift (writeIndex state.entries [])
  let indexHash := hash index
  let pack ← writeHashed hasher temporary state.pack index
  let pack ← writeHashed hasher temporary pack
    (streamFooter state.entries.length layout indexHash)
  let packHash := (hasher.finalize pack).hex
  diskStep (·.moveFile temporary (destination ++ [packName packHash]))
  pure { packHash, encodedSize := layout.totalLength, entries := state.entries }

def writeFilePack (inputs : List PackFileInput) (destination : Path) (ordinal : ℕ) :
    DiskProcess PackFileArtifact := do
  let layout ← lift (checkedLayout (inputs.map PackFileInput.encodedSize))
  let temporary := destination ++ [temporaryName ordinal]
  Process.tryCatch (writePackBody hasher reads inputs layout destination temporary)
    fun failure ↦ do
      removeFileQuietly temporary
      Process.fail failure

def checkFileInput (config : PackConfig) (input : PackFileInput) : DiskProcess Unit := do
  lift (validateHash "encoded" input.encodedHash)
  lift (validateHash "raw" input.rawHash)
  lift (rejectIf (maxDeclaredChunkBytes < input.rawSize ∨ maxDeclaredChunkBytes < input.encodedSize)
    (.configuration "chunk exceeds the maximum declared size"))
  lift (rejectIf (config.maxBytes < input.encodedSize)
    (.configuration ("chunk " ++ String.ofList input.encodedHash ++
      " is larger than the maximum pack size")))
  Process.query fun disk ↦
    match disk.node input.encodedPath with
    | none => .error (ioError .ioException)
    | some (.file content) =>
      rejectIf (content.length ≠ input.encodedSize)
        (.invalidIndex ("encoded chunk " ++ String.ofList input.encodedHash ++ " has size " ++
          toString content.length ++ ", expected " ++ toString input.encodedSize))
    | some _ =>
      .error (.error (.io ("encoded chunk path is not a file: " ++ displayPath input.encodedPath)))

/-- The check of neighbours in the sorted list of inputs. -/
def checkDuplicates : List PackFileInput → PackResult Unit
  | first :: second :: rest => do
    rejectIf (first.encodedHash = second.encodedHash)
      (.invalidIndex ("duplicate encoded hash " ++ String.ofList first.encodedHash))
    checkDuplicates (second :: rest)
  | _ => pure ()

/-- The collection of the written packs, group by group. -/
def writeGroups (destination : Path) :
    List (List PackFileInput) → ℕ → DiskProcess (List PackFileArtifact)
  | [], _ => pure []
  | group :: rest, ordinal => do
    let artifact ← writeFilePack hasher reads group destination ordinal
    let artifacts ← writeGroups destination rest (ordinal + 1)
    pure (artifact :: artifacts)

def writePacksFromFiles (inputs : List PackFileInput) (config : PackConfig) (destination : Path) :
    DiskProcess (List PackFileArtifact) := do
  lift config.validate
  Process.forEach (fun input _ ↦ checkFileInput config input) inputs ()
  let sorted := inputs.insertionSort fun left right ↦ left.encodedHash ≤ right.encodedHash
  lift (checkDuplicates sorted)
  diskStep (·.createDirectory destination)
  writeGroups hasher reads destination (groupInputs config PackFileInput.encodedSize sorted) 0

end Writer

/-! ### Rules for the steps -/

section Rules

variable {α : Type} {before : Disk → Prop} {fails : Fault PackError → Disk → Prop}

theorem ensures_lift {outcome : PackResult α} {after : α → Disk → Prop}
    (hok : ∀ disk value, before disk → outcome = .ok value → after value disk)
    (herror : ∀ disk failure, before disk → outcome = .error failure → fails failure disk) :
    Process.Ensures before (lift outcome) (fun _ ↦ True) after fails :=
  ensures_query hok herror

theorem ensures_diskStep {operation : Disk → Except IoFailure Disk} {after : Unit → Disk → Prop}
    (hok : ∀ disk made, before disk → operation disk = .ok made → after () made)
    (herror : ∀ disk failure, before disk → operation disk = .error failure →
      fails (ioError failure) disk) :
    Process.Ensures before (diskStep operation) (fun _ ↦ True) after fails := by
  refine ensures_step (fun _ _ ↦ trivial) ?_ ?_
  · intro disk value hdisk hvalue
    cases hoperation : operation disk with
    | ok made => exact hok disk made hdisk hoperation
    | error failure =>
      rw [hoperation] at hvalue
      cases hvalue
  · intro disk failure hdisk hfailure
    cases hoperation : operation disk with
    | ok made =>
      rw [hoperation] at hfailure
      cases hfailure
    | error reason =>
      rw [hoperation] at hfailure
      obtain rfl := Except.error.inj hfailure
      exact herror disk reason hdisk hoperation

end Rules

/-! ### Hashers and parts -/

section Parts

variable {hash : Bytes → Digest} (hasher : IncrementalHasher hash)

theorem IncrementalHasher.represents_new : hasher.Represents hasher.new [] := ⟨[], rfl, rfl⟩

theorem IncrementalHasher.Represents.update {hasher : IncrementalHasher hash}
    {state : hasher.State} {bytes : Bytes} (h : hasher.Represents state bytes) (part : Bytes) :
    hasher.Represents (hasher.update state part) (bytes ++ part) := by
  obtain ⟨parts, rfl, rfl⟩ := h
  exact ⟨parts ++ [part], by simp, by simp⟩

theorem IncrementalHasher.Represents.finalize {hasher : IncrementalHasher hash}
    {state : hasher.State} {bytes : Bytes} (h : hasher.Represents state bytes) :
    hasher.finalize state = hash bytes := by
  obtain ⟨parts, rfl, rfl⟩ := h
  exact hasher.finalize_updates parts

theorem ReadPolicy.flatten_parts (reads : ReadPolicy) (encodedHash : Text) {fuel : ℕ}
    {source : Bytes} (hfuel : source.length ≤ fuel) :
    (reads.parts encodedHash fuel source).flatten = source := by
  induction fuel generalizing source with
  | zero =>
    rw [length_eq_zero_iff.mp (Nat.le_zero.mp hfuel)]
    rfl
  | succ fuel ih =>
    rw [ReadPolicy.parts]
    split_ifs with hempty
    · rw [isEmpty_iff.mp hempty]
      rfl
    · have hlength : 0 < source.length := length_pos_iff.mpr fun hnil ↦ hempty (by simp [hnil])
      have hcount := reads.count_pos encodedHash source.length hlength
      have hrest : (source.drop (reads.count encodedHash source.length)).length ≤ fuel := by
        rw [length_drop]
        omega
      rw [flatten_cons, ih hrest, take_append_drop]

end Parts

/-! ### Header and footer -/

theorem streamHeader_eq (entryCount : ℕ) (layout : PackLayout) :
    streamHeader entryCount layout = (headerFields entryCount layout).flatten := by
  have hzeros : (List.replicate headerSize 0 : Bytes) =
      [List.replicate 8 0, List.replicate 2 0, leBytes 2 0, List.replicate 4 0,
        List.replicate 8 0, List.replicate 8 0, List.replicate 8 0, List.replicate 8 0,
        List.replicate 16 0].flatten := rfl
  simp only [streamHeader, hzeros]
  rw [copyAt_flatten _ 0 0, copyAt_flatten _ 1 8, copyAt_flatten _ 3 12, copyAt_flatten _ 4 16,
    copyAt_flatten _ 5 24, copyAt_flatten _ 6 32, copyAt_flatten _ 7 40]
  · simp [headerFields]
  all_goals simp [blockOffset, headerMagic]

theorem streamFooter_eq (entryCount : ℕ) (layout : PackLayout) (indexHash : Digest) :
    streamFooter entryCount layout indexHash =
      (footerFields entryCount layout indexHash).flatten := by
  have hzeros : (List.replicate footerSize 0 : Bytes) =
      [List.replicate 8 0, List.replicate 2 0, leBytes 2 0, List.replicate 8 0,
        List.replicate 8 0, List.replicate 8 0, leBytes 4 0, List.replicate 32 0].flatten := rfl
  simp only [streamFooter, hzeros]
  rw [copyAt_flatten _ 0 0, copyAt_flatten _ 1 8, copyAt_flatten _ 3 12, copyAt_flatten _ 4 20,
    copyAt_flatten _ 5 28, copyAt_flatten _ 7 40]
  · simp [footerFields]
  all_goals simp [blockOffset, footerMagic, indexHash.length_eq]

theorem ensures_reject {α : Type} {before : Disk → Prop} {fails : Fault PackError → Disk → Prop}
    {condition : Prop} [Decidable condition] {reason : PackError} {next : Unit → DiskProcess α}
    {after : α → Disk → Prop}
    (hfails : ∀ disk, before disk → condition → fails (.error reason) disk)
    (hnext : ¬ condition → Process.Ensures before (next ()) (fun _ ↦ True) after fails) :
    Process.Ensures before (lift (rejectIf condition reason) >>= next) (fun _ ↦ True) after
      fails := by
  refine ensures_bind (fun _ disk ↦ ¬ condition ∧ before disk) (ensures_lift ?_ ?_) ?_
  · intro disk _ hdisk hok
    exact ⟨rejectIf_eq_ok.mp hok, hdisk⟩
  · intro disk failure hdisk hfailure
    by_cases hcondition : condition
    · rw [rejectIf, throwIf, if_pos hcondition] at hfailure
      obtain rfl := Except.error.inj hfailure
      exact hfails disk hdisk hcondition
    · rw [rejectIf, throwIf, if_neg hcondition] at hfailure
      cases hfailure
  · intro _
    exact ensures_assume hnext

/-! ### The output file -/

variable {written : Bytes} {input : PackFileInput}

/-- The output holds the given bytes, and the rest of the disk is as it was. -/
def Output (start : Disk) (output : Path) (bytes : Bytes) (disk : Disk) : Prop :=
  disk.node output = some (.file bytes) ∧ ∀ other, other ≠ output → disk.node other = start.node other

/-- The in-memory input that a chunk file corresponds to. -/
def packInputOf (disk : Disk) (input : PackFileInput) : PackInput where
  encodedHash := input.encodedHash
  rawHash := input.rawHash
  rawSize := input.rawSize
  encodedBytes := (disk.content input.encodedPath).getD []

/-- A chunk is stored in a file of the declared size whose content has the encoded hash. -/
structure ChunkStored (hash : Bytes → Digest) (disk : Disk) (input : PackFileInput) : Prop where
  content_eq : disk.content input.encodedPath = some (packInputOf disk input).encodedBytes
  length_eq : (packInputOf disk input).encodedBytes.length = input.encodedSize
  hash_eq : (hash (packInputOf disk input).encodedBytes).hex = input.encodedHash

section Copying

variable {hash : Bytes → Digest} {hasher : IncrementalHasher hash} {reads : ReadPolicy}
  {start : Disk} {output : Path}

theorem ensures_writeHashed (houtput : output ≠ []) {state : hasher.State}
    (hstate : hasher.Represents state written) (bytes : Bytes) :
    Process.Ensures (Output start output written) (writeHashed hasher output state bytes)
      (fun _ ↦ True)
      (fun next disk ↦ hasher.Represents next (written ++ bytes) ∧
        Output start output (written ++ bytes) disk) fun _ _ ↦ False := by
  refine ensures_bind (fun _ ↦ Output start output (written ++ bytes)) ?_ ?_
  · refine ensures_diskStep ?_ ?_
    · rintro disk made ⟨hnode, hrest⟩ happend
      obtain ⟨content, hcontent, hmade⟩ := appendFile_eq_ok happend
      rw [hnode] at hcontent
      obtain rfl : written = content := by simpa using hcontent
      simp only [pathKey_id] at hmade
      refine ⟨by rw [hmade, if_pos rfl], fun other hother ↦ ?_⟩
      rw [hmade, if_neg hother, hrest other hother]
    · rintro disk failure ⟨hnode, -⟩ happend
      obtain ⟨made, hmade⟩ := appendFile_of_file bytes houtput hnode
      rw [hmade] at happend
      cases happend
  · intro _
    exact ensures_pure fun disk hdisk ↦ ⟨hstate.update bytes, hdisk⟩

/-- What the read loop has done after some parts of a source. -/
def Copied (hasher : IncrementalHasher hash) (written copied : Bytes) (state : CopyState hasher) :
    Prop :=
  hasher.Represents state.pack (written ++ copied) ∧ hasher.Represents state.chunk copied ∧
    state.copied = copied.length

/-- The read loop copies the whole source and hashes it. -/
theorem ensures_copyParts (houtput : output ≠ []) {pack : hasher.State}
    (hpack : hasher.Represents pack written) (parts : List Bytes) :
    Process.Ensures (Output start output written)
      (forEach (copyPart hasher output) parts { chunk := hasher.new, pack, copied := 0 })
      (fun _ ↦ True)
      (fun state disk ↦ Copied hasher written parts.flatten state ∧
        Output start output (written ++ parts.flatten) disk)
      fun _ _ ↦ u64Size ≤ parts.flatten.length := by
  refine Process.Ensures.mono (ensures_forEach
    (fun done state disk ↦ Copied hasher written done.flatten state ∧
      Output start output (written ++ done.flatten) disk) ?_)
    ?_ (fun _ h ↦ h) (fun _ _ h ↦ h) fun _ _ h ↦ h
  · intro done part rest state hparts
    refine ensures_assume fun hstate ↦ ?_
    obtain ⟨hpack, hchunk, hcopied⟩ := hstate
    have hdone : (done ++ [part]).flatten = done.flatten ++ part := by simp
    rw [hdone, ← append_assoc]
    refine ensures_bind _ ((ensures_writeHashed houtput hpack part).mono (fun _ h ↦ h)
      (fun _ h ↦ h) (fun _ _ h ↦ h) fun _ _ h ↦ h.elim) fun next ↦ ?_
    refine ensures_assume fun hnext ↦ ?_
    refine ensures_bind (fun copied disk ↦ copied = (done.flatten ++ part).length ∧
      Output start output (written ++ done.flatten ++ part) disk) ?_ fun copied ↦ ?_
    · refine ensures_lift ?_ ?_
      · intro disk copied hdisk hadd
        obtain ⟨-, rfl⟩ := checkedAdd_eq_some.mp (okOr_eq_ok.mp hadd)
        exact ⟨by rw [hcopied, length_append], hdisk⟩
      · intro disk failure _ hadd
        by_contra hsmall
        have hfits : state.copied + part.length < u64Size := by
          have hlength := congrArg (fun parts ↦ parts.flatten.length) hparts
          simp only [flatten_append, flatten_cons, length_append] at hlength
          omega
        rw [okOr_eq_ok.mpr (checkedAdd_eq_some.mpr ⟨hfits, rfl⟩)] at hadd
        cases hadd
    · refine ensures_assume fun hlength ↦ ?_
      refine ensures_pure fun disk hdisk ↦ ⟨⟨?_, hchunk.update part, hlength⟩, hdisk⟩
      rw [← append_assoc]
      exact hnext
  · intro disk hdisk
    refine ⟨⟨?_, hasher.represents_new, rfl⟩, ?_⟩
    · rwa [flatten_nil, append_nil]
    · rwa [flatten_nil, append_nil]

/-- The record that is placed for a chunk file at an offset. -/
def fileEntry (input : PackFileInput) (offset : ℕ) : PackEntry where
  encodedHash := input.encodedHash
  rawHash := input.rawHash
  offset := offset
  encodedLength := input.encodedSize
  rawLength := input.rawSize
  compression := compressionZstd
  flags := 0

theorem ensures_copyChunk (houtput : output ≠ []) {state : PackState hasher}
    (hpack : hasher.Represents state.pack written) (hapart : input.encodedPath ≠ output) :
    Process.Ensures (Output start output written) (copyChunk hasher reads output input state)
      (fun _ ↦ True)
      (fun next disk ↦ (ChunkStored hash start input ∧
        hasher.Represents next.pack (written ++ (packInputOf start input).encodedBytes) ∧
        next.entries = state.entries ++ [fileEntry input state.offset] ∧
        next.offset = state.offset + input.encodedSize) ∧
        Output start output (written ++ (packInputOf start input).encodedBytes) disk)
      fun _ _ ↦ ¬ (ChunkStored hash start input ∧ state.offset + input.encodedSize < u64Size) := by
  refine ensures_bind (fun source disk ↦ start.content input.encodedPath = some source ∧
    Output start output written disk) ?_ fun source ↦ ?_
  · refine ensures_query ?_ ?_
    · intro disk source hdisk hopen
      have hsame : disk.content input.encodedPath = start.content input.encodedPath := by
        rw [content, content, hdisk.2 _ hapart]
      rw [← hsame]
      split at hopen
      · next content hcontent =>
        obtain rfl := Except.ok.inj hopen
        exact ⟨hcontent, hdisk⟩
      · cases hopen
    · rintro disk failure hdisk hopen ⟨hstored, -⟩
      have hsame : disk.content input.encodedPath = start.content input.encodedPath := by
        rw [content, content, hdisk.2 _ hapart]
      rw [hsame, hstored.content_eq] at hopen
      cases hopen
  · refine ensures_assume fun hsource ↦ ?_
    have hbytes : (packInputOf start input).encodedBytes = source := by
      rw [packInputOf, hsource]
      rfl
    rw [if_neg hapart, hbytes]
    have hflatten := reads.flatten_parts input.encodedHash (le_refl source.length)
    have hcopy : Process.Ensures (Output start output written) _ _ _ _ :=
      ensures_copyParts houtput hpack (reads.parts input.encodedHash source.length source)
    rw [hflatten] at hcopy
    refine ensures_bind _ (hcopy.mono (fun _ h ↦ h) (fun _ h ↦ h) (fun _ _ h ↦ h) ?_)
      fun copied ↦ ?_
    · rintro _ disk hlarge ⟨hstored, hfits⟩
      have hlength := hstored.length_eq
      rw [hbytes] at hlength
      omega
    refine ensures_assume fun hcopied ↦ ?_
    obtain ⟨hnextPack, hchunk, hcount⟩ := hcopied
    refine ensures_reject ?_ fun hsize ↦ ?_
    · rintro disk _ hsize ⟨hstored, -⟩
      have hlength := hstored.length_eq
      rw [hbytes] at hlength
      exact hsize (hcount.trans hlength)
    rw [hchunk.finalize]
    refine ensures_reject ?_ fun hactual ↦ ?_
    · rintro disk _ hactual ⟨hstored, -⟩
      have hhash := hstored.hash_eq
      rw [hbytes] at hhash
      exact hactual hhash
    have hstored : ChunkStored hash start input :=
      { content_eq := by rw [hbytes]; exact hsource
        length_eq := by rw [hbytes, ← not_not.mp hsize, hcount]
        hash_eq := by rw [hbytes]; exact not_not.mp hactual }
    refine ensures_bind (fun offset disk ↦ offset = state.offset + input.encodedSize ∧
      Output start output (written ++ source) disk) (ensures_lift ?_ ?_) fun offset ↦ ?_
    · intro disk offset hdisk hadd
      obtain ⟨-, rfl⟩ := checkedAdd_eq_some.mp (okOr_eq_ok.mp hadd)
      exact ⟨rfl, hdisk⟩
    · rintro disk failure _ hadd ⟨-, hfits⟩
      rw [okOr_eq_ok.mpr (checkedAdd_eq_some.mpr ⟨hfits, rfl⟩)] at hadd
      cases hadd
    · refine ensures_assume fun hoffset ↦ ?_
      exact ensures_pure fun disk hdisk ↦ ⟨⟨hstored, hnextPack, rfl, hoffset⟩, hdisk⟩

end Copying

variable {inputs : List PackFileInput} {destination : Path} {ordinal : ℕ}

section Groups

variable {hash : Bytes → Digest} {hasher : IncrementalHasher hash} {reads : ReadPolicy}
  {start : Disk}

/-- The concatenated chunks of a group. -/
def groupData (disk : Disk) (inputs : List PackFileInput) : Bytes :=
  (inputs.map (packInputOf disk)).flatMap PackInput.encodedBytes

/-- The index records of a group. -/
def groupEntries (disk : Disk) (inputs : List PackFileInput) : List PackEntry :=
  placeEntries headerSize (inputs.map (packInputOf disk))

def groupSizes (disk : Disk) (inputs : List PackFileInput) : List ℕ :=
  encodedSizes (inputs.map (packInputOf disk))

/-- The loop over a group copies its chunks one after the other and places their records. -/
theorem ensures_copyChunks {output : Path} (houtput : output ≠ [])
    (hapart : ∀ input ∈ inputs, input.encodedPath ≠ output) {pack : hasher.State}
    (hpack : hasher.Represents pack written) :
    Process.Ensures (Output start output written)
      (forEach (copyChunk hasher reads output) inputs
        { pack, entries := [], offset := headerSize }) (fun _ ↦ True)
      (fun state disk ↦ ((∀ input ∈ inputs, ChunkStored hash start input) ∧
        hasher.Represents state.pack (written ++ groupData start inputs) ∧
        state.entries = groupEntries start inputs) ∧
        Output start output (written ++ groupData start inputs) disk)
      fun _ _ ↦ ¬ ((∀ input ∈ inputs, ChunkStored hash start input) ∧
        headerSize + (groupSizes start inputs).sum < u64Size) := by
  refine Process.Ensures.mono (ensures_forEach
    (fun done state disk ↦ ((∀ input ∈ done, ChunkStored hash start input) ∧
      hasher.Represents state.pack (written ++ groupData start done) ∧
      state.entries = groupEntries start done ∧
      state.offset = headerSize + (groupSizes start done).sum) ∧
      Output start output (written ++ groupData start done) disk) ?_)
    ?_ (fun _ h ↦ h) ?_ fun _ _ h ↦ h
  · intro done input rest state hinputs
    refine ensures_assume fun hstate ↦ ?_
    obtain ⟨hstored, hstatePack, hentries, hoffset⟩ := hstate
    have hinput : input ∈ inputs := by simp [hinputs]
    have hdata : groupData start (done ++ [input]) =
        groupData start done ++ (packInputOf start input).encodedBytes := by
      simp [groupData]
    have hsizes : (groupSizes start (done ++ [input])).sum =
        (groupSizes start done).sum + (packInputOf start input).encodedBytes.length := by
      simp [groupSizes, encodedSizes]
    refine (ensures_copyChunk houtput hstatePack (hapart input hinput)).mono (fun _ h ↦ h)
      (fun _ h ↦ h) ?_ ?_
    · rintro next disk ⟨⟨hthis, hnextPack, hnextEntries, hnextOffset⟩, hdisk⟩
      rw [hdata, ← append_assoc]
      refine ⟨⟨?_, hnextPack, ?_, ?_⟩, hdisk⟩
      · intro other hother
        rcases mem_append.mp hother with hold | hlast
        · exact hstored other hold
        · rw [mem_singleton.mp hlast]
          exact hthis
      · rw [hnextEntries, hentries, groupEntries, groupEntries, map_append, map_singleton,
          placeEntries_concat, hoffset]
        congr 1
        simp only [placeEntries, fileEntry, hthis.length_eq, groupSizes]
        rfl
      · rw [hnextOffset, hoffset, hsizes, hthis.length_eq, Nat.add_assoc]
    · rintro _ disk hbad ⟨hall, hfits⟩
      refine hbad ⟨hall input hinput, ?_⟩
      have htotal : (groupSizes start inputs).sum = (groupSizes start done).sum +
          ((packInputOf start input).encodedBytes.length + (groupSizes start rest).sum) := by
        rw [hinputs]
        simp [groupSizes, encodedSizes]
      have hlength := (hall input hinput).length_eq
      omega
  · intro disk hdisk
    refine ⟨⟨fun input hinput ↦ absurd hinput not_mem_nil, ?_, rfl, rfl⟩, ?_⟩
    · rw [show groupData start [] = [] from rfl, append_nil]
      exact hpack
    · rw [show groupData start [] = [] from rfl, append_nil]
      exact hdisk
  · rintro state disk ⟨⟨hstored, hstatePack, hentries, -⟩, hdisk⟩
    exact ⟨⟨hstored, hstatePack, hentries⟩, hdisk⟩

theorem packName_ne_temporaryName {packHash : Text} (h : IsHash packHash) (ordinal : ℕ) :
    packName packHash ≠ temporaryName ordinal := by
  intro hname
  obtain ⟨c, rest, rfl⟩ := exists_cons_of_length_eq_add_one h.1
  have hhead := congrArg List.head? hname
  rw [packName, temporaryName, String.toList_append, String.toList_append, append_assoc] at hhead
  have hdot : c = '.' := Option.some.inj hhead
  have hhex := h.2 c mem_cons_self
  rw [hdot] at hhex
  exact absurd hhex (by unfold IsHexChar; decide)

/-- What `write_packs_from_files` has checked of an input before it writes. -/
structure FileChecked (input : PackFileInput) : Prop where
  encodedHash : IsHash input.encodedHash
  rawHash : IsHash input.rawHash
  rawSize_le : input.rawSize ≤ maxDeclaredChunkBytes
  encodedSize_le : input.encodedSize ≤ maxDeclaredChunkBytes

theorem validInput_of_stored (hchecked : FileChecked input) (hstored : ChunkStored hash start input)
    : ValidInput hash (packInputOf start input) where
  encodedHash := hchecked.encodedHash
  rawHash := hchecked.rawHash
  rawSize_le := hchecked.rawSize_le
  encodedSize_le := hstored.length_eq ▸ hchecked.encodedSize_le
  hash_eq := hstored.hash_eq

theorem groupSizes_of_stored (hstored : ∀ input ∈ inputs, ChunkStored hash start input) :
    groupSizes start inputs = inputs.map PackFileInput.encodedSize := by
  rw [groupSizes, encodedSizes, map_map]
  exact map_congr_left fun input hinput ↦ (hstored input hinput).length_eq

/-- The destination is a directory in which every output name can be written. -/
structure Ready (destination : Path) (disk : Disk) : Prop where
  directory : disk.node destination = some .directory
  temporary : ∀ ordinal, disk.directoryExists (destination ++ [temporaryName ordinal]) = false
  pack : ∀ packHash, IsHash packHash →
    disk.directoryExists (destination ++ [packName packHash]) = false

/-- A group has become a pack: the artifact is that of the in-memory writer, its file holds the
bytes of the pack, and nothing else has changed but that the temporary file is gone. -/
def Written (hash : Bytes → Digest) (start : Disk) (inputs : List PackFileInput)
    (destination temporary : Path) (file : PackFileArtifact) (disk : Disk) : Prop :=
  ∃ artifact, buildArtifact hash (inputs.map (packInputOf start)) = .ok artifact ∧
    file.packHash = artifact.packHash ∧ file.entries = artifact.entries ∧
    file.encodedSize = artifact.bytes.length ∧ IsHash artifact.packHash ∧
    disk.content (destination ++ [packName artifact.packHash]) = some artifact.bytes ∧
    disk.node temporary = none ∧
    ∀ other, other ≠ temporary → other ≠ destination ++ [packName artifact.packHash] →
      disk.node other = start.node other

theorem ensures_writePackBody (hchecked : ∀ input ∈ inputs, FileChecked input)
    (hapart : ∀ input ∈ inputs, input.encodedPath ≠ destination ++ [temporaryName ordinal])
    (hfits : (layoutOf (inputs.map PackFileInput.encodedSize)).totalLength ≤ maxPackBytes) :
    Process.Ensures (fun disk ↦ disk = start)
      (writePackBody hasher reads inputs (layoutOf (inputs.map PackFileInput.encodedSize))
        destination (destination ++ [temporaryName ordinal])) (fun _ ↦ True)
      (fun file disk ↦ (∀ input ∈ inputs, ChunkStored hash start input) ∧
        Written hash start inputs destination (destination ++ [temporaryName ordinal]) file disk)
      fun _ _ ↦ ¬ ((∀ input ∈ inputs, ChunkStored hash start input) ∧ Ready destination start) := by
  set temporary := destination ++ [temporaryName ordinal] with htemporary
  set layout := layoutOf (inputs.map PackFileInput.encodedSize) with hlayout
  have houtput : temporary ≠ [] := by simp [htemporary]
  have hsmall : maxPackBytes < u64Size := by decide
  refine ensures_bind (fun _ ↦ Output start temporary []) (ensures_diskStep ?_ ?_)
    fun _ ↦ ?_
  · rintro disk made rfl hwrite
    obtain ⟨-, hmade⟩ := writeFile_eq_ok hwrite
    simp only [pathKey_id] at hmade
    exact ⟨by rw [hmade, if_pos rfl], fun other hother ↦ by rw [hmade, if_neg hother]⟩
  · rintro disk failure rfl hwrite ⟨-, hready⟩
    have hdirectory := hready.temporary ordinal
    have hadmits : disk.Admits temporary := by
      refine ⟨houtput, ?_, node_ne_directory hdirectory⟩
      rw [htemporary, dropLast_concat]
      exact hready.directory
    obtain ⟨made, hmade⟩ := writeFile_of_admits hadmits hdirectory
    rw [hmade] at hwrite
    cases hwrite
  refine ensures_bind _ ((ensures_writeHashed houtput hasher.represents_new
    (streamHeader inputs.length layout)).mono (fun _ h ↦ h) (fun _ h ↦ h) (fun _ _ h ↦ h)
    fun _ _ h ↦ h.elim) fun pack ↦ ?_
  refine ensures_assume fun hpack ↦ ?_
  rw [nil_append] at hpack ⊢
  refine ensures_bind _ ((ensures_copyChunks houtput hapart hpack).mono (fun _ h ↦ h)
    (fun _ h ↦ h) (fun _ _ h ↦ h) ?_) fun state ↦ ?_
  · rintro _ disk hbad ⟨hstored, -⟩
    refine hbad ⟨hstored, ?_⟩
    rw [groupSizes_of_stored hstored]
    simp only [hlayout, layoutOf] at hfits
    omega
  refine ensures_assume fun hstate ↦ ?_
  obtain ⟨hstored, hstatePack, hentries⟩ := hstate
  have hvalid : ∀ input ∈ inputs.map (packInputOf start), ValidInput hash input := by
    intro input hinput
    obtain ⟨file, hfile, rfl⟩ := mem_map.mp hinput
    exact validInput_of_stored (hchecked file hfile) (hstored file hfile)
  have hsizes : encodedSizes (inputs.map (packInputOf start)) =
      inputs.map PackFileInput.encodedSize := groupSizes_of_stored hstored
  have htotal : (layoutOf (encodedSizes (inputs.map (packInputOf start)))).totalLength ≤
      maxPackBytes := by
    rw [hsizes]
    exact hfits
  obtain ⟨records, hrecords, hrecordsOf⟩ :=
    mapM_encodeEntry_of_fits (entryFits_placeEntries hvalid htotal)
  have hindex : writeIndex state.entries [] = .ok records.flatten := by
    rw [hentries]
    exact writeIndex_eq_ok.mpr ⟨records, hrecords, rfl⟩
  have hcount : records.length = inputs.length := by
    rw [length_of_mapM_encodeEntry hrecords, length_placeEntries, length_map]
  have hstateCount : state.entries.length = records.length := by
    rw [hentries, groupEntries, length_placeEntries, length_map, hcount]
  have hbuild : buildArtifact hash (inputs.map (packInputOf start)) =
      .ok (artifactOf hash (inputs.map (packInputOf start)) records) :=
    (buildArtifact_eq_ok hvalid).mpr ⟨htotal, records, hrecords, rfl⟩
  have hbytes : streamHeader inputs.length layout ++ groupData start inputs ++ records.flatten ++
      streamFooter records.length layout (hash records.flatten) =
      (artifactOf hash (inputs.map (packInputOf start)) records).bytes := by
    rw [streamHeader_eq, streamFooter_eq, ← hcount, append_assoc, append_assoc]
    simp only [artifactOf, hsizes]
    rfl
  rw [hindex]
  refine ensures_bind (fun index disk ↦ index = records.flatten ∧
    Output start temporary (streamHeader inputs.length layout ++ groupData start inputs) disk)
    (ensures_lift ?_ ?_) fun index ↦ ?_
  · intro disk index hdisk hok
    exact ⟨(Except.ok.inj hok).symm, hdisk⟩
  · intro disk failure _ herror
    cases herror
  refine ensures_assume ?_
  rintro rfl
  refine ensures_bind _ ((ensures_writeHashed houtput hstatePack records.flatten).mono
    (fun _ h ↦ h) (fun _ h ↦ h) (fun _ _ h ↦ h) fun _ _ h ↦ h.elim) fun indexed ↦ ?_
  refine ensures_assume fun hindexed ↦ ?_
  rw [hstateCount]
  refine ensures_bind _ ((ensures_writeHashed houtput hindexed
    (streamFooter records.length layout (hash records.flatten))).mono
    (fun _ h ↦ h) (fun _ h ↦ h) (fun _ _ h ↦ h) fun _ _ h ↦ h.elim) fun finished ↦ ?_
  refine ensures_assume fun hfinished ↦ ?_
  rw [hbytes] at hfinished
  rw [hbytes, hfinished.finalize]
  set artifact := artifactOf hash (inputs.map (packInputOf start)) records with hartifact
  have hpackHash : (hash artifact.bytes).hex = artifact.packHash := rfl
  have hisHash : IsHash artifact.packHash := hpackHash ▸ Digest.isHash_hex _
  have hnames : destination ++ [packName artifact.packHash] ≠ temporary := fun h ↦
    packName_ne_temporaryName hisHash ordinal (by simpa [htemporary] using h)
  have hlength : layout.totalLength = artifact.bytes.length := by
    have hdata := length_data (inputs.map (packInputOf start))
    rw [hartifact, artifactOf, length_packBytes, hrecordsOf.length_flatten, hdata, hsizes,
      length_placeEntries, length_map, hlayout, layoutOf, length_map]
  rw [hpackHash]
  refine ensures_bind (fun _ disk ↦
    disk.content (destination ++ [packName artifact.packHash]) = some artifact.bytes ∧
    disk.node temporary = none ∧
    ∀ other, other ≠ temporary → other ≠ destination ++ [packName artifact.packHash] →
      disk.node other = start.node other) (ensures_diskStep ?_ ?_) fun _ ↦ ?_
  · rintro disk made ⟨hnode, hrest⟩ hmove
    obtain ⟨moved, hmoved, -, -, hmade⟩ := moveFile_eq_ok hmove
    simp only [pathKey_id] at hmade
    rw [hnode] at hmoved
    obtain rfl := Option.some.inj hmoved
    refine ⟨?_, ?_, fun other hother hpack ↦ ?_⟩
    · rw [content_eq_some, hmade, if_pos rfl]
    · rw [hmade, if_neg hnames.symm, if_pos rfl]
    · rw [hmade, if_neg hpack, if_neg hother, hrest other hother]
  · rintro disk failure ⟨hnode, hrest⟩ hmove ⟨-, hready⟩
    have hdirectory : disk.node destination = some .directory := by
      rw [hrest destination (by simp [htemporary]), hready.directory]
    have hfree : disk.directoryExists (destination ++ [packName artifact.packHash]) = false := by
      rw [directoryExists, hrest _ hnames]
      exact hready.pack artifact.packHash hisHash
    have hexists : disk.fileExists temporary = true := by rw [fileExists, hnode]
    obtain ⟨made, hmade⟩ := moveFile_of_clear hexists
      (show destination ++ [packName artifact.packHash] ≠ [] by simp)
      (by rw [dropLast_concat]; exact hdirectory) hfree
    rw [hmade] at hmove
    cases hmove
  · refine ensures_pure fun disk hdisk ↦ ?_
    exact ⟨hstored, artifact, hbuild, rfl, hentries, hlength, hisHash, hdisk⟩

end Groups

variable {disk : Disk}

section Packs

variable {hash : Bytes → Digest} {hasher : IncrementalHasher hash} {reads : ReadPolicy}

/-- The names that the writer uses in its destination. -/
def IsOutputName (name : Text) : Prop :=
  (∃ ordinal, name = temporaryName ordinal) ∨ ∃ packHash, IsHash packHash ∧ name = packName packHash

/-- No chunk is stored under a name that the writer uses. -/
def ChunksApart (destination : Path) (inputs : List PackFileInput) : Prop :=
  ∀ input ∈ inputs, ∀ name, IsOutputName name → input.encodedPath ≠ destination ++ [name]

theorem ensures_writeFilePack {start : Disk} (hchecked : ∀ input ∈ inputs, FileChecked input)
    (hapart : ChunksApart destination inputs) :
    Process.Ensures (fun disk ↦ disk = start)
      (writeFilePack hasher reads inputs destination ordinal) (fun _ ↦ True)
      (fun file disk ↦ (∀ input ∈ inputs, ChunkStored hash start input) ∧
        Written hash start inputs destination (destination ++ [temporaryName ordinal]) file disk)
      fun _ _ ↦ ¬ ((∀ input ∈ inputs, ChunkStored hash start input) ∧ Ready destination start ∧
        (layoutOf (inputs.map PackFileInput.encodedSize)).totalLength ≤ maxPackBytes) := by
  refine ensures_bind (fun layout disk ↦
    ((layoutOf (inputs.map PackFileInput.encodedSize)).totalLength ≤ maxPackBytes ∧
      layoutOf (inputs.map PackFileInput.encodedSize) = layout) ∧ disk = start)
    (ensures_lift ?_ ?_) fun layout ↦ ?_
  · intro disk layout hdisk hlayout
    exact ⟨checkedLayout_eq_ok.mp hlayout, hdisk⟩
  · rintro disk failure _ hlayout ⟨-, -, hfits⟩
    rw [checkedLayout_eq_ok.mpr ⟨hfits, rfl⟩] at hlayout
    cases hlayout
  refine ensures_assume ?_
  rintro ⟨hfits, rfl⟩
  have htemporary : ∀ input ∈ inputs,
      input.encodedPath ≠ destination ++ [temporaryName ordinal] := fun input hinput ↦
    hapart input hinput _ (.inl ⟨ordinal, rfl⟩)
  refine ensures_tryCatch (fun _ _ ↦ ¬ ((∀ input ∈ inputs, ChunkStored hash start input) ∧
    Ready destination start)) (ensures_writePackBody hchecked htemporary hfits) fun failure ↦ ?_
  refine ensures_bind (fun _ _ ↦ ¬ ((∀ input ∈ inputs, ChunkStored hash start input) ∧
    Ready destination start)) (ensures_step (fun _ _ ↦ trivial) ?_ ?_) fun _ ↦ ?_
  · intro disk _ hbad _
    exact hbad
  · intro disk reason hbad _ hgood
    exact hbad ⟨hgood.1, hgood.2.1⟩
  · refine ensures_query ?_ ?_
    · intro disk value _ hvalue
      cases hvalue
    · rintro disk reason hbad _ ⟨hstored, hready, -⟩
      exact hbad ⟨hstored, hready⟩

/-- A file artifact describes an in-memory artifact. -/
def Matches (artifact : PackArtifact) (file : PackFileArtifact) : Prop :=
  file.packHash = artifact.packHash ∧ file.entries = artifact.entries ∧
    file.encodedSize = artifact.bytes.length

/-- Packs with the same hash have the same bytes. -/
def CollisionFree (artifacts : List PackArtifact) : Prop :=
  ∀ first ∈ artifacts, ∀ second ∈ artifacts, first.packHash = second.packHash →
    first.bytes = second.bytes

/-- The groups have become packs, in order: the artifacts are those of the in-memory writer, every
pack file holds the bytes of its pack, and only output names have changed. -/
structure WrittenAll (hash : Bytes → Digest) (start : Disk) (destination : Path)
    (groups : List (List PackFileInput)) (files : List PackFileArtifact)
    (artifacts : List PackArtifact) (disk : Disk) : Prop where
  stored : ∀ group ∈ groups, ∀ input ∈ group, ChunkStored hash start input
  built : List.Forall₂ (fun group artifact ↦
    buildArtifact hash (group.map (packInputOf start)) = .ok artifact) groups artifacts
  same : List.Forall₂ Matches artifacts files
  frame : ∀ other, (∀ name, IsOutputName name → other ≠ destination ++ [name]) →
    disk.node other = start.node other
  kept : ∀ packHash, IsHash packHash → (∀ artifact ∈ artifacts, artifact.packHash ≠ packHash) →
    disk.node (destination ++ [packName packHash]) = start.node (destination ++ [packName packHash])
  content : CollisionFree artifacts → ∀ artifact ∈ artifacts,
    disk.content (destination ++ [packName artifact.packHash]) = some artifact.bytes

theorem packInputOf_congr {first second : Disk}
    (h : second.content input.encodedPath = first.content input.encodedPath) :
    packInputOf second input = packInputOf first input := by
  simp only [packInputOf, h]

theorem chunkStored_congr {first second : Disk}
    (h : second.content input.encodedPath = first.content input.encodedPath) :
    ChunkStored hash second input ↔ ChunkStored hash first input := by
  have hinput := packInputOf_congr h
  constructor
  · rintro ⟨hstored, hlength, hhash⟩
    rw [hinput] at hstored hlength hhash
    exact ⟨h ▸ hstored, hlength, hhash⟩
  · rintro ⟨hstored, hlength, hhash⟩
    refine ⟨?_, ?_, ?_⟩
    · rw [hinput, h]
      exact hstored
    · rw [hinput]
      exact hlength
    · rw [hinput]
      exact hhash

variable {file : PackFileArtifact}

theorem Written.frame {start : Disk}
    (h : Written hash start inputs destination (destination ++ [temporaryName ordinal]) file disk)
    {other : Path} (hother : ∀ name, IsOutputName name → other ≠ destination ++ [name]) :
    disk.node other = start.node other := by
  obtain ⟨artifact, -, -, -, -, hisHash, -, -, hframe⟩ := h
  exact hframe other (hother _ (.inl ⟨ordinal, rfl⟩)) (hother _ (.inr ⟨_, hisHash, rfl⟩))

theorem Written.ready {start : Disk}
    (h : Written hash start inputs destination (destination ++ [temporaryName ordinal]) file disk)
    (hready : Ready destination start) : Ready destination disk := by
  have hdirectory : disk.node destination = start.node destination :=
    h.frame fun name _ hname ↦ by simp at hname
  obtain ⟨artifact, -, -, -, -, hisHash, hcontent, hnone, hframe⟩ := h
  have hname (name : Text) (hfree : start.directoryExists (destination ++ [name]) = false) :
      disk.directoryExists (destination ++ [name]) = false := by
    rw [directoryExists]
    by_cases htemporary : destination ++ [name] = destination ++ [temporaryName ordinal]
    · rw [htemporary, hnone]
    · by_cases hpack : destination ++ [name] = destination ++ [packName artifact.packHash]
      · rw [hpack, content_eq_some.mp hcontent]
      · rw [hframe _ htemporary hpack]
        exact hfree
  exact
    { directory := hdirectory.trans hready.directory
      temporary := fun other ↦ hname _ (hready.temporary other)
      pack := fun packHash hpackHash ↦ hname _ (hready.pack packHash hpackHash) }

theorem Written.cons {start middle : Disk} {group : List PackFileInput}
    {rest : List (List PackFileInput)} {files : List PackFileArtifact}
    {artifacts : List PackArtifact}
    (hwritten : Written hash start group destination (destination ++ [temporaryName ordinal]) file
      middle) (hstored : ∀ input ∈ group, ChunkStored hash start input)
    (hsame : ∀ other ∈ rest, ∀ input ∈ other,
      middle.content input.encodedPath = start.content input.encodedPath)
    (hrest : WrittenAll hash middle destination rest files artifacts disk) :
    ∃ artifact, WrittenAll hash start destination (group :: rest) (file :: files)
      (artifact :: artifacts) disk := by
  have hframe (other : Path) (hother : ∀ name, IsOutputName name → other ≠ destination ++ [name]) :
      middle.node other = start.node other := hwritten.frame hother
  obtain ⟨artifact, hbuild, hpackHash, hentries, hsize, hisHash, hcontent, hnone, hmiddle⟩ := hwritten
  have hinputs : ∀ other ∈ rest, other.map (packInputOf middle) = other.map (packInputOf start) :=
    fun other hother ↦ map_congr_left fun input hinput ↦
      packInputOf_congr (hsame other hother input hinput)
  refine ⟨artifact, ?_, ?_, .cons ⟨hpackHash, hentries, hsize⟩ hrest.same, ?_, ?_, ?_⟩
  · intro other hother input hinput
    rcases mem_cons.mp hother with rfl | hother
    · exact hstored input hinput
    · exact (chunkStored_congr (hsame other hother input hinput)).mp
        (hrest.stored other hother input hinput)
  · refine .cons hbuild ?_
    have hbuilt := hrest.built
    rw [forall₂_iff_get] at hbuilt ⊢
    refine ⟨hbuilt.1, fun position hgroup hartifact ↦ ?_⟩
    rw [← hinputs _ (get_mem _ _)]
    exact hbuilt.2 position hgroup hartifact
  · intro other hother
    exact (hrest.frame other hother).trans (hframe other hother)
  · intro packHash hpack hothers
    rw [forall_mem_cons] at hothers
    rw [hrest.kept packHash hpack hothers.2]
    refine hmiddle _ (fun hname ↦ packName_ne_temporaryName hpack ordinal (by simpa using hname)) ?_
    intro hname
    apply hothers.1
    have heq : packName packHash = packName artifact.packHash := by simpa using hname
    exact (append_cancel_right heq).symm
  · intro hcollision other hother
    have hrestFree : CollisionFree artifacts := fun first hfirst second hsecond ↦
      hcollision first (mem_cons_of_mem _ hfirst) second (mem_cons_of_mem _ hsecond)
    rcases mem_cons.mp hother with rfl | hother
    · -- a later pack with the same name has the same bytes
      by_cases hlater : ∃ later ∈ artifacts, later.packHash = other.packHash
      · obtain ⟨later, hlater, hname⟩ := hlater
        rw [← hname, hrest.content hrestFree later hlater]
        rw [hcollision later (mem_cons_of_mem _ hlater) other mem_cons_self hname]
      · have hkept := hrest.kept other.packHash hisHash fun later hlater' hname ↦
          hlater ⟨later, hlater', hname⟩
        rw [content, hkept]
        exact hcontent
    · exact hrest.content hrestFree other hother

theorem ensures_writeGroups (groups : List (List PackFileInput)) (ordinal : ℕ) (start : Disk)
    (hchecked : ∀ group ∈ groups, ∀ input ∈ group, FileChecked input)
    (hapart : ∀ group ∈ groups, ChunksApart destination group) :
    Process.Ensures (fun disk ↦ disk = start) (writeGroups hasher reads destination groups ordinal)
      (fun _ ↦ True)
      (fun files disk ↦ ∃ artifacts, WrittenAll hash start destination groups files artifacts disk)
      fun _ _ ↦ ¬ ((∀ group ∈ groups, ∀ input ∈ group, ChunkStored hash start input) ∧
        Ready destination start ∧ ∀ group ∈ groups,
          (layoutOf (group.map PackFileInput.encodedSize)).totalLength ≤ maxPackBytes) := by
  induction groups generalizing ordinal start with
  | nil =>
    refine ensures_pure ?_
    rintro disk rfl
    exact ⟨[], by simp, .nil, .nil, fun _ _ ↦ rfl, fun _ _ _ ↦ rfl, fun _ _ h ↦ by simp at h⟩
  | cons group rest ih =>
    rw [forall_mem_cons] at hchecked hapart
    refine ensures_bind _ ((ensures_writeFilePack hchecked.1 hapart.1).mono (fun _ h ↦ h)
      (fun _ h ↦ h) (fun _ _ h ↦ h) ?_) fun file ↦ ?_
    · rintro _ disk hbad ⟨hstored, hready, hfits⟩
      exact hbad ⟨hstored group mem_cons_self, hready, hfits group mem_cons_self⟩
    refine ensures_of_state fun middle hmiddle ↦ ?_
    obtain ⟨hstored, hwritten⟩ := hmiddle
    -- the chunks of the other groups are untouched
    have hsame : ∀ other ∈ rest, ∀ input ∈ other,
        middle.content input.encodedPath = start.content input.encodedPath := by
      intro other hother input hinput
      rw [content, content, hwritten.frame (hapart.2 other hother input hinput)]
    refine ensures_bind _ ((ih (ordinal + 1) middle hchecked.2 hapart.2).mono (fun _ h ↦ h)
      (fun _ h ↦ h) (fun _ _ h ↦ h) ?_) fun files ↦ ?_
    · rintro _ disk hbad ⟨hall, hready, hfits⟩
      refine hbad ⟨fun other hother input hinput ↦ ?_, hwritten.ready hready, fun other hother ↦
        hfits other (mem_cons_of_mem _ hother)⟩
      rw [chunkStored_congr (hsame other hother input hinput)]
      exact hall other (mem_cons_of_mem _ hother) input hinput
    · refine ensures_pure fun disk hdisk ↦ ?_
      obtain ⟨artifacts, hrest⟩ := hdisk
      obtain ⟨artifact, hall⟩ := hwritten.cons hstored hsame hrest
      exact ⟨artifact :: artifacts, hall⟩

end Packs

section Whole

variable {hash : Bytes → Digest} {hasher : IncrementalHasher hash} {reads : ReadPolicy}

/-- The declared size of an input is within the limits and that of its file. -/
def SizeDeclared (config : PackConfig) (disk : Disk) (input : PackFileInput) : Prop :=
  input.encodedSize ≤ config.maxBytes ∧
    ∃ content, disk.content input.encodedPath = some content ∧ content.length = input.encodedSize

variable {config : PackConfig}

theorem ensures_checkFileInput {start : Disk} :
    Process.Ensures (fun disk ↦ disk = start) (checkFileInput config input) (fun _ ↦ True)
      (fun _ disk ↦ (FileChecked input ∧ SizeDeclared config start input) ∧ disk = start)
      fun _ _ ↦ ¬ (FileChecked input ∧ SizeDeclared config start input) := by
  refine ensures_reject ?_ fun hencoded ↦ ?_
  · rintro disk _ hhash ⟨hchecked, -⟩
    exact hhash ((utf8_hash_iff _).mpr hchecked.encodedHash)
  refine ensures_reject ?_ fun hraw ↦ ?_
  · rintro disk _ hhash ⟨hchecked, -⟩
    exact hhash ((utf8_hash_iff _).mpr hchecked.rawHash)
  refine ensures_reject ?_ fun hsize ↦ ?_
  · rintro disk _ hlarge ⟨hchecked, -⟩
    rcases hlarge with hlarge | hlarge
    · exact absurd hchecked.rawSize_le (not_le.mpr hlarge)
    · exact absurd hchecked.encodedSize_le (not_le.mpr hlarge)
  refine ensures_reject ?_ fun hmax ↦ ?_
  · rintro disk _ hlarge ⟨-, hdeclared, -⟩
    exact absurd hdeclared (not_le.mpr hlarge)
  rw [not_or, not_lt, not_lt] at hsize
  rw [not_not, utf8_hash_iff] at hencoded hraw
  refine ensures_query ?_ ?_
  · rintro disk _ rfl hok
    refine ⟨⟨⟨hencoded, hraw, hsize.1, hsize.2⟩, not_lt.mp hmax, ?_⟩, rfl⟩
    split at hok
    · cases hok
    · next content hnode =>
      exact ⟨content, content_eq_some.mpr hnode, not_not.mp (rejectIf_eq_ok.mp hok)⟩
    · cases hok
  · rintro disk failure rfl herror ⟨-, -, content, hcontent, hlength⟩
    rw [content_eq_some.mp hcontent] at herror
    simp only [rejectIf, throwIf] at herror
    rw [if_neg (not_not.mpr hlength)] at herror
    cases herror

theorem ensures_checkFileInputs {start : Disk} :
    Process.Ensures (fun disk ↦ disk = start)
      (forEach (fun input _ ↦ checkFileInput config input) inputs ()) (fun _ ↦ True)
      (fun _ disk ↦ (∀ input ∈ inputs, FileChecked input ∧ SizeDeclared config start input) ∧
        disk = start)
      fun _ _ ↦ ¬ ∀ input ∈ inputs, FileChecked input ∧ SizeDeclared config start input := by
  refine Process.Ensures.mono (ensures_forEach (fun done _ disk ↦
    (∀ input ∈ done, FileChecked input ∧ SizeDeclared config start input) ∧ disk = start) ?_)
    (fun disk hdisk ↦ ⟨by simp, hdisk⟩) (fun _ h ↦ h) (fun _ _ h ↦ h) fun _ _ h ↦ h
  intro done input rest _ hinputs
  refine ensures_assume fun hdone ↦ ?_
  refine ensures_checkFileInput.mono (fun _ h ↦ h) (fun _ h ↦ h) ?_ ?_
  · rintro _ disk ⟨hthis, hdisk⟩
    refine ⟨fun other hother ↦ ?_, hdisk⟩
    rcases mem_append.mp hother with hold | hlast
    · exact hdone other hold
    · rw [mem_singleton.mp hlast]
      exact hthis
  · intro _ disk hbad hall
    exact hbad (hall input (by simp [hinputs]))

/-- Neighbours of a sorted list are distinct exactly when the order is strict. -/
theorem checkDuplicates_eq_ok {u : Unit}
    (hsorted : inputs.Pairwise fun left right ↦ left.encodedHash ≤ right.encodedHash) :
    checkDuplicates inputs = .ok u ↔
      inputs.Pairwise fun left right ↦ left.encodedHash < right.encodedHash := by
  induction inputs with
  | nil => simp [checkDuplicates]
  | cons first rest ih =>
    rw [pairwise_cons] at hsorted
    have ih := ih hsorted.2
    cases rest with
    | nil => simp [checkDuplicates]
    | cons second others =>
      simp only [checkDuplicates, bind_eq_ok, rejectIf_eq_ok, ih, exists_const]
      rw [pairwise_cons (l := second :: others)]
      constructor
      · rintro ⟨hne, hstrict⟩
        have hfirst := lt_of_le_of_ne (hsorted.1 second mem_cons_self) hne
        refine ⟨fun other hother ↦ ?_, hstrict⟩
        rcases mem_cons.mp hother with rfl | hother
        · exact hfirst
        · exact lt_trans hfirst ((pairwise_cons.mp hstrict).1 other hother)
      · rintro ⟨hfirst, hstrict⟩
        exact ⟨ne_of_lt (hfirst second mem_cons_self), hstrict⟩

/-- The chunk files in the order in which they are packed. -/
def sortedFiles (inputs : List PackFileInput) : List PackFileInput :=
  inputs.insertionSort fun left right ↦ left.encodedHash ≤ right.encodedHash

theorem groups_of_files {start : Disk} (config : PackConfig) {order : List PackInput}
    (horder : order.Perm (inputs.map (packInputOf start)))
    (hsizes : ∀ input ∈ inputs, (packInputOf start input).encodedBytes.length = input.encodedSize)
    (hstrict : (sortedFiles inputs).Pairwise fun left right ↦
      left.encodedHash < right.encodedHash) :
    (order.Pairwise fun left right ↦ left.encodedHash ≠ right.encodedHash) ∧
      PackBuilder.groups config order =
        (groupInputs config PackFileInput.encodedSize (sortedFiles inputs)).map
          (List.map (packInputOf start)) := by
  have hmapped : ((sortedFiles inputs).map (packInputOf start)).Pairwise fun left right ↦
      left.encodedHash < right.encodedHash := by
    rw [pairwise_map]
    exact hstrict
  have hperm : order.Perm ((sortedFiles inputs).map (packInputOf start)) :=
    horder.trans ((perm_insertionSort _ inputs).symm.map _)
  have hdistinct : order.Pairwise fun left right ↦ left.encodedHash ≠ right.encodedHash :=
    hperm.symm.pairwise (hmapped.imp fun h ↦ ne_of_lt h) fun h ↦ h.symm
  refine ⟨hdistinct, ?_⟩
  have hsorted : PackBuilder.sortedInputs order = (sortedFiles inputs).map (packInputOf start) := by
    refine List.Perm.eq_of_pairwise ?_ (PackBuilder.pairwise_sortedInputs hdistinct) hmapped
      ((perm_insertionSort _ order).trans hperm)
    intro left right _ _ hlt hgt
    exact absurd hlt (lt_asymm hgt)
  rw [PackBuilder.groups, hsorted, groupInputs, groupInputs]
  have hmap := groupLoop_map config (packInputOf start)
    (fun input : PackInput ↦ input.encodedBytes.length) (sortedFiles inputs) [] [] 0
  rw [map_nil, map_nil] at hmap
  rw [hmap]
  congr 1
  refine groupLoop_congr config (fun input hinput ↦ ?_) [] [] 0
  exact hsizes input ((mem_insertionSort _).mp hinput)

/-- The destination can be made, and none of the output names in it is a directory. -/
structure Usable (destination : Path) (disk : Disk) : Prop where
  root : disk.node [] = some .directory
  clear : ∀ above, above <+: destination → disk.node above = none ∨
    disk.node above = some .directory
  names : ∀ name, IsOutputName name → disk.directoryExists (destination ++ [name]) = false

theorem Usable.ready {made : Disk} (husable : Usable destination disk)
    (hmade : disk.createDirectory destination = .ok made) : Ready destination made := by
  obtain ⟨-, hdirectory, hother⟩ := createDirectory_eq_ok hmade
  have hname (name : Text) (h : IsOutputName name) :
      made.directoryExists (destination ++ [name]) = false := by
    have hsame : made.node (destination ++ [name]) = disk.node (destination ++ [name]) := by
      by_contra hne
      have hleading := (hother _ hne).length_le
      simp at hleading
    rw [directoryExists, hsame]
    exact husable.names name h
  exact
    { directory := hdirectory
      temporary := fun ordinal ↦ hname _ (.inl ⟨ordinal, rfl⟩)
      pack := fun packHash h ↦ hname _ (.inr ⟨packHash, h, rfl⟩) }

/-- A run of the streaming writer: it ends exactly as the in-memory writer does, unless a chunk
is not stored as declared or the destination is not usable. -/
theorem ensures_writePacksFromFiles {start : Disk} {order : List PackInput}
    (horder : order.Perm (inputs.map (packInputOf start))) (hapart : ChunksApart destination inputs)
    :
    Process.Ensures (fun disk ↦ disk = start)
      (writePacksFromFiles hasher reads inputs config destination) (fun _ ↦ True)
      (fun files disk ↦ ∃ artifacts, buildPacks hash order config = .ok artifacts ∧
        List.Forall₂ Matches artifacts files ∧
        (CollisionFree artifacts → ∀ artifact ∈ artifacts,
          disk.content (destination ++ [packName artifact.packHash]) = some artifact.bytes))
      fun _ _ ↦ ¬ ((∀ input ∈ inputs, ChunkStored hash start input) ∧ Usable destination start ∧
        ∃ artifacts, buildPacks hash order config = .ok artifacts) := by
  refine ensures_bind (fun _ disk ↦ config.validate = .ok () ∧ disk = start)
    (ensures_lift ?_ ?_) fun _ ↦ ?_
  · intro disk _ hdisk hok
    exact ⟨hok, hdisk⟩
  · rintro disk failure _ herror ⟨-, -, artifacts, hbuild⟩
    rw [(buildPacks_eq_ok.mp hbuild).1] at herror
    cases herror
  refine ensures_assume fun hconfig ↦ ?_
  refine ensures_bind _ (ensures_checkFileInputs.mono (fun _ h ↦ h) (fun _ h ↦ h)
    (fun _ _ h ↦ h) ?_) fun _ ↦ ?_
  · rintro _ disk hbad ⟨hstored, -, artifacts, hbuild⟩
    obtain ⟨-, hvalid, -⟩ := buildPacks_eq_ok.mp hbuild
    refine hbad fun input hinput ↦ ?_
    obtain ⟨hinputValid, hmax⟩ := hvalid (packInputOf start input)
      (horder.mem_iff.mpr (mem_map_of_mem hinput))
    have hlength := (hstored input hinput).length_eq
    refine ⟨⟨hinputValid.encodedHash, hinputValid.rawHash, hinputValid.rawSize_le, ?_⟩, ?_, _,
      (hstored input hinput).content_eq, hlength⟩
    · exact hlength ▸ hinputValid.encodedSize_le
    · exact hlength ▸ hmax
  refine ensures_assume fun hchecked ↦ ?_
  have hsizes : ∀ input ∈ inputs,
      (packInputOf start input).encodedBytes.length = input.encodedSize := by
    intro input hinput
    obtain ⟨-, -, content, hcontent, hlength⟩ := hchecked input hinput
    rw [packInputOf, hcontent]
    exact hlength
  have hsorted : (sortedFiles inputs).Pairwise fun left right ↦
      left.encodedHash ≤ right.encodedHash := pairwise_insertionSort _ _
  refine ensures_bind (fun _ disk ↦ ((sortedFiles inputs).Pairwise fun left right ↦
    left.encodedHash < right.encodedHash) ∧ disk = start) (ensures_lift ?_ ?_) fun _ ↦ ?_
  · intro disk _ hdisk hok
    exact ⟨(checkDuplicates_eq_ok hsorted).mp hok, hdisk⟩
  · rintro disk failure _ herror ⟨-, -, artifacts, hbuild⟩
    obtain ⟨-, -, hdistinct, -⟩ := buildPacks_eq_ok.mp hbuild
    have hfiles : inputs.Pairwise fun left right ↦ left.encodedHash ≠ right.encodedHash := by
      have hmapped := horder.pairwise hdistinct fun h ↦ h.symm
      rwa [pairwise_map] at hmapped
    have hne := (perm_insertionSort (fun left right ↦ left.encodedHash ≤ right.encodedHash)
      inputs).symm.pairwise hfiles fun h ↦ h.symm
    have hstrict := (hsorted.and hne).imp fun h ↦ lt_of_le_of_ne h.1 h.2
    have hok : checkDuplicates (sortedFiles inputs) = .ok () :=
      (checkDuplicates_eq_ok hsorted).mpr hstrict
    cases hok.symm.trans herror
  refine ensures_assume fun hstrict ↦ ?_
  obtain ⟨hdistinct, hgroups⟩ := groups_of_files config horder hsizes hstrict
  set groups := groupInputs config PackFileInput.encodedSize (sortedFiles inputs) with hgroupsDef
  have hmem : ∀ group ∈ groups, ∀ input ∈ group, input ∈ inputs := by
    intro group hgroup input hinput
    have hflat : input ∈ groups.flatten := mem_flatten.mpr ⟨group, hgroup, hinput⟩
    rw [hgroupsDef, flatten_groupInputs] at hflat
    exact (mem_insertionSort _).mp hflat
  refine ensures_bind (fun _ disk ↦ start.createDirectory destination = .ok disk)
    (ensures_diskStep ?_ ?_) fun _ ↦ ?_
  · rintro disk made rfl hmade
    exact hmade
  · rintro disk failure rfl herror ⟨-, husable, -⟩
    obtain ⟨made, hmade⟩ := createDirectory_of_clear husable.root husable.clear
    cases hmade.symm.trans herror
  refine ensures_of_state fun made hmade ↦ ?_
  have hcontent := content_of_extendsByDirectories (createDirectory_eq_ok hmade).1
  have hinputs : packInputOf made = packInputOf start :=
    funext fun input ↦ packInputOf_congr (hcontent _)
  refine (ensures_writeGroups groups 0 made
    (fun group hgroup input hinput ↦ (hchecked input (hmem group hgroup input hinput)).1)
    fun group hgroup input hinput ↦ hapart input (hmem group hgroup input hinput)).mono
    (fun _ h ↦ h) (fun _ h ↦ h) ?_ ?_
  · rintro files disk ⟨artifacts, hwritten⟩
    have hbuilt := hwritten.built
    rw [hinputs] at hbuilt
    refine ⟨artifacts, buildPacks_eq_ok.mpr ⟨hconfig, fun input hinput ↦ ?_, hdistinct, ?_⟩,
      hwritten.same, hwritten.content⟩
    · obtain ⟨file, hfile, rfl⟩ := mem_map.mp (horder.mem_iff.mp hinput)
      obtain ⟨hfileChecked, hdeclared⟩ := hchecked file hfile
      obtain ⟨group, hgroup, hfileGroup⟩ : ∃ group ∈ groups, file ∈ group := by
        rw [← mem_flatten, hgroupsDef, flatten_groupInputs]
        exact (mem_insertionSort _).mpr hfile
      have hstored := (chunkStored_congr (hcontent _)).mp
        (hwritten.stored group hgroup file hfileGroup)
      exact ⟨validInput_of_stored hfileChecked hstored, hstored.length_eq ▸ hdeclared.1⟩
    · rw [hgroups, forall₂_map_left_iff]
      exact hbuilt
  · rintro _ disk hbad ⟨hstored, husable, artifacts, hbuild⟩
    obtain ⟨-, hvalid, -, hartifacts⟩ := buildPacks_eq_ok.mp hbuild
    refine hbad ⟨fun group hgroup input hinput ↦ ?_, husable.ready hmade, fun group hgroup ↦ ?_⟩
    · exact (chunkStored_congr (hcontent _)).mpr (hstored input (hmem group hgroup input hinput))
    · rw [hgroups, forall₂_map_left_iff] at hartifacts
      have hgroupStored : ∀ input ∈ group, ChunkStored hash start input := fun input hinput ↦
        hstored input (hmem group hgroup input hinput)
      have hgroupValid : ∀ input ∈ group.map (packInputOf start), ValidInput hash input := by
        intro input hinput
        obtain ⟨file, hfile, rfl⟩ := mem_map.mp hinput
        exact validInput_of_stored (hchecked file (hmem group hgroup file hfile)).1
          (hgroupStored file hfile)
      obtain ⟨position, hposition, rfl⟩ := getElem_of_mem hgroup
      have hpair := (forall₂_iff_get.mp hartifacts).2 position hposition
        (by rw [← List.Forall₂.length_eq hartifacts]; exact hposition)
      have htotal := ((buildArtifact_eq_ok hgroupValid).mp hpair).1
      rw [show encodedSizes _ = _ from groupSizes_of_stored hgroupStored] at htotal
      exact htotal

end Whole

/-- The streaming writer agrees with the in-memory writer. When `build_packs` succeeds on the
chunks, in any order, the files are written with the same hashes, entries, sizes and bytes; when
it fails, so does the streaming writer.

Assumes: `hapart`, no chunk file has a name that the writer uses in its destination. The first
part also needs the chunks stored as declared, a usable destination and packs without a hash
collision. -/
theorem writePacksFromFiles_agrees (hash : Bytes → Digest) (hasher : IncrementalHasher hash)
    (reads : ReadPolicy) (config : PackConfig) (inputs : List PackFileInput)
    (order : List PackInput) (destination : Path) (start : Disk)
    (horder : order.Perm (inputs.map (packInputOf start)))
    (hapart : ChunksApart destination inputs) :
    ((∀ input ∈ inputs, ChunkStored hash start input) → Usable destination start →
      ∀ artifacts, buildPacks hash order config = .ok artifacts → CollisionFree artifacts →
        ∃ files, (writePacksFromFiles hasher reads inputs config destination start).result =
            .ok files ∧
          List.Forall₂ (fun artifact file ↦ Matches artifact file ∧
            (writePacksFromFiles hasher reads inputs config destination start).final.content
              (destination ++ [packName artifact.packHash]) = some artifact.bytes)
            artifacts files) ∧
    ((∀ artifacts, buildPacks hash order config ≠ .ok artifacts) → ∀ files,
      (writePacksFromFiles hasher reads inputs config destination start).result ≠ .ok files) := by
  have hrun : Process.Ensures _ (writePacksFromFiles hasher reads inputs config destination) _ _ _ :=
    ensures_writePacksFromFiles horder hapart
  obtain ⟨-, hok, herror⟩ := hrun start rfl
  constructor
  · intro hstored husable artifacts hbuild hcollision
    cases hresult : (writePacksFromFiles hasher reads inputs config destination start).result with
    | error failure =>
      exact absurd ⟨hstored, husable, artifacts, hbuild⟩ (herror failure hresult)
    | ok files =>
      obtain ⟨built, hbuilt, hmatches, hcontent⟩ := hok files hresult
      obtain rfl : built = artifacts := Except.ok.inj (hbuilt.symm.trans hbuild)
      refine ⟨files, rfl, ?_⟩
      rw [forall₂_iff_get] at hmatches ⊢
      exact ⟨hmatches.1, fun position hartifact hfile ↦ ⟨hmatches.2 position hartifact hfile,
        hcontent hcollision _ (get_mem _ _)⟩⟩
  · intro hfails files hresult
    obtain ⟨artifacts, hbuild, -⟩ := hok files hresult
    exact hfails artifacts hbuild

def bytesHasher (hash : Bytes → Digest) : IncrementalHasher hash where
  State := Bytes
  new := []
  update := fun seen bytes ↦ seen ++ bytes
  finalize := hash
  finalize_updates := fun parts ↦ by
    have hfold (parts : List Bytes) (seen : Bytes) :
        parts.foldl (fun seen bytes ↦ seen ++ bytes) seen = seen ++ parts.flatten := by
      induction parts generalizing seen with
      | nil => simp
      | cons part rest ih => simp [ih]
    rw [hfold, nil_append]

def fullReads : ReadPolicy where
  count := fun _ remaining ↦ min remaining readBufferSize
  count_pos := fun _ _ hremaining ↦ Nat.lt_min.mpr ⟨hremaining, by decide⟩
  count_le := fun _ _ ↦ Nat.min_le_right _ _

def emptyChunkFile : PackFileInput where
  encodedHash := emptyDigest.hex
  rawHash := emptyDigest.hex
  rawSize := 0
  encodedSize := 0
  encodedPath := ["chunk"]

/-- A disk with a chunk file without bytes. -/
def emptyChunkDisk : Disk :=
  .ofEntries [([], .directory), (["chunk"], .file [])] (by decide) (by decide)

/-- The streaming writer on a chunk without bytes. -/
theorem writePacksFromFiles_agrees_emptyChunk :
    ∃ artifacts files, buildPacks sampleHash [emptyChunk] {} = .ok artifacts ∧
      (writePacksFromFiles (bytesHasher sampleHash) fullReads [emptyChunkFile] {}
        ["packs".toList] emptyChunkDisk).result = .ok files ∧ artifacts.length = files.length := by
  have hcount : (buildPacks sampleHash [emptyChunk] {}).toOption.map List.length = some 1 := by
    decide +kernel
  obtain ⟨artifacts, hsome, hone⟩ := Option.map_eq_some_iff.mp hcount
  have hbuild : buildPacks sampleHash [emptyChunk] {} = .ok artifacts := toOption_eq_some.mp hsome
  have hapart : ChunksApart ["packs".toList] [emptyChunkFile] := by
    intro input hinput name _ hpath
    rw [mem_singleton.mp hinput] at hpath
    have hlength : (1 : ℕ) = 2 := congrArg List.length hpath
    omega
  have hstored : ∀ input ∈ [emptyChunkFile], ChunkStored sampleHash emptyChunkDisk input := by
    intro input hinput
    rw [mem_singleton.mp hinput]
    exact ⟨rfl, rfl, rfl⟩
  have husable : Usable ["packs".toList] emptyChunkDisk := by
    refine ⟨rfl, fun above habove ↦ ?_, fun name _ ↦ ?_⟩
    · rcases prefix_cons_iff.mp habove with rfl | ⟨below, rfl, hbelow⟩
      · exact .inr rfl
      · rw [prefix_nil.mp hbelow]
        exact .inl rfl
    · have hnone : emptyChunkDisk.node (["packs".toList] ++ [name]) = none :=
        node_eq_none_of_below (by decide) (by simp)
      rw [directoryExists, hnone]
  have hcollision : CollisionFree artifacts := by
    obtain ⟨artifact, rfl⟩ := length_eq_one_iff.mp hone
    intro first hfirst second hsecond _
    rw [mem_singleton.mp hfirst, mem_singleton.mp hsecond]
  obtain ⟨files, hfiles, hmatches⟩ := (writePacksFromFiles_agrees sampleHash
    (bytesHasher sampleHash) fullReads {} [emptyChunkFile] [emptyChunk] ["packs".toList]
    emptyChunkDisk (.refl _) hapart).1 hstored husable artifacts hbuild hcollision
  exact ⟨artifacts, files, hbuild, hfiles, List.Forall₂.length_eq hmatches⟩

/-! ### A chunk file under an output name -/

/-- The digests of the one-byte chunk `0`, of its index and of its pack. -/
def zeroChunkDigests : Digest × Digest × Digest :=
  (⟨[45, 58, 222, 223, 241, 27, 97, 241, 76, 136, 110, 53, 175, 160, 54, 115, 109, 205, 135, 167,
      77, 39, 181, 193, 81, 2, 37, 208, 245, 146, 226, 19], rfl⟩,
    ⟨[87, 28, 3, 168, 189, 40, 156, 203, 107, 223, 50, 3, 170, 29, 57, 78, 154, 20, 53, 79, 180,
      191, 19, 228, 27, 15, 164, 175, 16, 177, 102, 196], rfl⟩,
    ⟨[224, 105, 9, 1, 124, 244, 147, 49, 105, 29, 221, 117, 106, 182, 51, 244, 219, 208, 9, 76, 38,
      192, 90, 53, 33, 77, 114, 114, 151, 168, 190, 188], rfl⟩)

/-- The digests of the one-byte chunk `1`, of its index and of its pack. -/
def oneChunkDigests : Digest × Digest × Digest :=
  (⟨[72, 252, 114, 31, 187, 193, 114, 224, 146, 95, 162, 122, 241, 103, 29, 226, 37, 186, 146, 113,
      52, 128, 41, 152, 177, 10, 21, 104, 161, 136, 101, 43], rfl⟩,
    ⟨[232, 159, 202, 193, 52, 43, 85, 32, 34, 221, 158, 196, 160, 229, 112, 55, 20, 146, 10, 124,
      148, 254, 29, 105, 182, 171, 108, 119, 181, 39, 150, 187], rfl⟩,
    ⟨[137, 122, 138, 221, 199, 230, 90, 96, 31, 227, 249, 117, 246, 249, 242, 165, 46, 156, 130,
      124, 102, 146, 211, 164, 119, 156, 24, 220, 208, 60, 149, 222], rfl⟩)

/-- A hash function with the BLAKE3 digests of two one-byte chunks, of the index and of the pack
of each. -/
def pairHash (bytes : Bytes) : Digest :=
  match bytes.length with
  | 1 => if bytes = [0] then zeroChunkDigests.1 else oneChunkDigests.1
  | 96 => if slice bytes 0 1 = [45] then zeroChunkDigests.2.1 else oneChunkDigests.2.1
  | _ => if slice bytes 64 1 = [0] then zeroChunkDigests.2.2 else oneChunkDigests.2.2

/-- A configuration with which every chunk becomes a pack of its own. -/
def singletonConfig : PackConfig where
  targetBytes := 1
  minBytes := 1
  maxBytes := 16

/-- Two chunk files, the second of which has the temporary name of the first pack. -/
def aliasedFiles : List PackFileInput :=
  [{ encodedHash := zeroChunkDigests.1.hex, rawHash := zeroChunkDigests.1.hex, rawSize := 1,
     encodedSize := 1, encodedPath := ["chunk"] },
   { encodedHash := oneChunkDigests.1.hex, rawHash := oneChunkDigests.1.hex, rawSize := 1,
     encodedSize := 1, encodedPath := ["packs", temporaryName 0] }]

def aliasedDisk : Disk :=
  .ofEntries [([], .directory), (["chunk"], .file [0]), (["packs"], .directory),
    (["packs", temporaryName 0], .file [1])] (by decide) (by decide)

/-- Both chunks are stored as declared and `build_packs` packs them, but the first pack takes the
file of the second chunk, and the streaming writer fails. -/
theorem writePacksFromFiles_fails_on_aliased :
    singletonConfig.validate = .ok () ∧
      (aliasedFiles.Pairwise fun left right ↦ left.encodedHash ≠ right.encodedHash) ∧
      (∀ input ∈ aliasedFiles, FileChecked input ∧ SizeDeclared singletonConfig aliasedDisk input ∧
        ChunkStored pairHash aliasedDisk input) ∧
      (∃ artifacts, buildPacks pairHash (aliasedFiles.map (packInputOf aliasedDisk))
        singletonConfig = .ok artifacts) ∧
      ∀ files, (writePacksFromFiles (bytesHasher pairHash) fullReads aliasedFiles singletonConfig
        ["packs"] aliasedDisk).result ≠ .ok files := by
  refine ⟨rfl, by decide, ?_, ?_, ?_⟩
  · intro input hinput
    rcases mem_cons.mp hinput with rfl | hinput
    · exact ⟨⟨Digest.isHash_hex _, Digest.isHash_hex _, by decide, by decide⟩,
        ⟨by decide, [0], rfl, rfl⟩, ⟨rfl, rfl, rfl⟩⟩
    · rw [mem_singleton.mp hinput]
      exact ⟨⟨Digest.isHash_hex _, Digest.isHash_hex _, by decide, by decide⟩,
        ⟨by decide, [1], rfl, rfl⟩, ⟨rfl, rfl, rfl⟩⟩
  · have hsome : (buildPacks pairHash (aliasedFiles.map (packInputOf aliasedDisk))
        singletonConfig).toOption.isSome = true := by decide +kernel
    obtain ⟨artifacts, hartifacts⟩ := Option.isSome_iff_exists.mp hsome
    exact ⟨artifacts, toOption_eq_some.mp hartifacts⟩
  · intro files hfiles
    have hnone : (writePacksFromFiles (bytesHasher pairHash) fullReads aliasedFiles singletonConfig
        ["packs"] aliasedDisk).result.toOption.isNone = true := by decide +kernel
    rw [hfiles] at hnone
    cases hnone

end GameLauncher.Packs
