import GameLauncher.Packs.FileWriter

/-!
# The size of a pack, for the writer and for the renewal

The streaming writer closes a group of chunks before their data exceeds the configured maximum;
header, index and footer come on top of the data. The renewal of HOT packs reads a pack back with
`stream_verified_pack_to_file`, which stops as soon as the whole file exceeds the same maximum.

`writePacksFromFiles_renewable_iff` compares the two bounds: the packs of a run can all be renewed
exactly when the layout of every group is within the maximum.
-/

set_option autoImplicit false

namespace GameLauncher.Packs

open Foundation Fallible List Process FileTree

/-! ### Reading a pack back -/

/-- Why a pack is not renewed. -/
inductive RenewalError
  | stream
  | sizeOverflow
  | exceeded
  | hashMismatch (packHash : Text)
  | invalid (reason : Fault PackError)
  deriving DecidableEq, Repr

section Renewal

variable {hash : Bytes → Digest} (hasher : IncrementalHasher hash) (maxBytes : ℕ)

/-- The state of the loop over the stream: the bytes counted, hashed and written so far. -/
structure Received (hasher : IncrementalHasher hash) where
  total : ℕ
  state : hasher.State
  output : Bytes

/-- The body of the loop over the stream. The stream returns parts of the pack or fails. -/
def receivePart (received : Received hasher) (part : Option Bytes) :
    Except RenewalError (Received hasher) := do
  let bytes ← orThrow part .stream
  let total ← orThrow (checkedAdd received.total bytes.length) .sizeOverflow
  throwIf (maxBytes < total) .exceeded
  return ⟨total, hasher.update received.state bytes, received.output ++ bytes⟩

/-- The loop over the stream, which is also the check of the size. -/
def receiveParts (parts : List (Option Bytes)) : Except RenewalError (Received hasher) :=
  parts.foldlM (receivePart hasher maxBytes) ⟨0, hasher.new, []⟩

/-- `stream_verified_pack_to_file`, up to the file that the bytes are written to. -/
def streamVerifiedPackToFile (packHash : Text) (parts : List (Option Bytes)) :
    Except RenewalError Bytes := do
  let received ← receiveParts hasher maxBytes parts
  throwIf ((hasher.finalize received.state).hex ≠ packHash) (.hashMismatch packHash)
  (do let reader ← PackReader.parse hash received.output
      reader.verifyPackHash hash packHash).mapError .invalid
  return received.output

/-- A file of a given size passes the check of the size, in whatever parts it is streamed. -/
def PassesSizeCheck (size : ℕ) : Prop :=
  ∀ parts : List Bytes, parts.flatten.length = size →
    ∃ received, receiveParts hasher maxBytes (parts.map some) = .ok received

theorem foldlM_receivePart {parts : List Bytes} {received : Received hasher}
    (hmax : maxBytes < u64Size) (hwithin : received.total ≤ maxBytes) :
    (∃ last, (parts.map some).foldlM (receivePart hasher maxBytes) received = .ok last) ↔
      received.total + parts.flatten.length ≤ maxBytes := by
  induction parts generalizing received with
  | nil => exact iff_of_true ⟨received, rfl⟩ (by simpa using hwithin)
  | cons part rest ih =>
    simp only [map_cons, foldlM_cons, receivePart, bind_eq_ok, orThrow_eq_ok,
      checkedAdd_eq_some, throwIf_eq_ok, pure_eq_ok, not_lt, flatten_cons, length_append]
    constructor
    · rintro ⟨last, next, ⟨_, hpart, total, ⟨-, rfl⟩, -, htotal, rfl⟩, hlast⟩
      obtain rfl := Option.some.inj hpart
      have hrest := (ih htotal).mp ⟨last, hlast⟩
      simp only at hrest
      omega
    · intro hfits
      have htotal : received.total + part.length ≤ maxBytes := by omega
      have hnext : (⟨received.total + part.length, hasher.update received.state part,
          received.output ++ part⟩ : Received hasher).total ≤ maxBytes := htotal
      obtain ⟨last, hlast⟩ := (ih hnext).mpr (by simp only; omega)
      exact ⟨last, _, ⟨part, rfl, _, ⟨by omega, rfl⟩, (), htotal, rfl⟩, hlast⟩

theorem passesSizeCheck_iff {size : ℕ} (hmax : maxBytes < u64Size) :
    PassesSizeCheck hasher maxBytes size ↔ size ≤ maxBytes := by
  have hloop (parts : List Bytes) :
      (∃ received, receiveParts hasher maxBytes (parts.map some) = .ok received) ↔
        0 + parts.flatten.length ≤ maxBytes :=
    foldlM_receivePart hasher maxBytes hmax (Nat.zero_le _)
  constructor
  · intro hpasses
    have hsize := (hloop [List.replicate size 0]).mp
      (hpasses [List.replicate size 0] (by simp))
    simpa using hsize
  · intro hsize parts hparts
    exact (hloop parts).mpr (by omega)

end Renewal

/-! ### The sizes of the written files -/

/-- A path has a file of the given size. -/
def HasSize (path : Path) (size : ℕ) (disk : Disk) : Prop :=
  ∃ content, disk.content path = some content ∧ content.length = size

/-- The output has the given size, and the rest of the disk is as it was. -/
def OutputSize (start : Disk) (output : Path) (size : ℕ) (disk : Disk) : Prop :=
  HasSize output size disk ∧ ∀ other, other ≠ output → disk.node other = start.node other

section Sizes

variable {hash : Bytes → Digest} {hasher : IncrementalHasher hash} {reads : ReadPolicy}
  {start : Disk} {output : Path}

theorem ensures_writeHashed_size (size : ℕ) (state : hasher.State) (bytes : Bytes) :
    Process.Ensures (OutputSize start output size) (writeHashed hasher output state bytes)
      (fun _ ↦ True) (fun _ ↦ OutputSize start output (size + bytes.length))
      fun _ _ ↦ True := by
  refine ensures_bind (fun _ ↦ OutputSize start output (size + bytes.length)) ?_
    fun _ ↦ ensures_pure fun _ hdisk ↦ hdisk
  refine ensures_diskStep ?_ fun _ _ _ _ ↦ trivial
  rintro disk made ⟨⟨content, hcontent, hlength⟩, hrest⟩ happend
  obtain ⟨found, hfound, hmade⟩ := appendFile_eq_ok happend
  simp only [pathKey_id] at hmade
  rw [content_eq_some, hfound] at hcontent
  obtain rfl : found = content := by simpa using hcontent
  refine ⟨⟨found ++ bytes, ?_, by rw [length_append, hlength]⟩, fun other hother ↦ ?_⟩
  · rw [content_eq_some, hmade, if_pos rfl]
  · rw [hmade, if_neg hother, hrest other hother]

/-- The read loop appends as many bytes as it counts. -/
theorem ensures_copyParts_size (size : ℕ) (parts : List Bytes) (copyState : CopyState hasher)
    (hzero : copyState.copied = 0) :
    Process.Ensures (OutputSize start output size)
      (forEach (copyPart hasher output) parts copyState) (fun _ ↦ True)
      (fun state ↦ OutputSize start output (size + state.copied)) fun _ _ ↦ True := by
  refine Process.Ensures.mono (ensures_forEach
    (fun _ state ↦ OutputSize start output (size + state.copied)) ?_)
    (fun _ h ↦ by rwa [hzero, Nat.add_zero]) (fun _ h ↦ h) (fun _ _ h ↦ h) fun _ _ h ↦ h
  intro done part rest state _
  refine ensures_bind _ (ensures_writeHashed_size (size + state.copied) state.pack part)
    fun next ↦ ?_
  refine ensures_bind (fun copied disk ↦ copied = state.copied + part.length ∧
    OutputSize start output (size + state.copied + part.length) disk) ?_ fun copied ↦ ?_
  · refine ensures_lift ?_ fun _ _ _ _ ↦ trivial
    intro disk copied hdisk hadd
    obtain ⟨-, rfl⟩ := checkedAdd_eq_some.mp (okOr_eq_ok.mp hadd)
    exact ⟨rfl, hdisk⟩
  · refine ensures_assume ?_
    rintro rfl
    refine ensures_pure fun disk hdisk ↦ ?_
    rw [← Nat.add_assoc]
    exact hdisk

theorem ensures_copyChunk_size (size : ℕ) (input : PackFileInput) (state : PackState hasher) :
    Process.Ensures (OutputSize start output size) (copyChunk hasher reads output input state)
      (fun _ ↦ True)
      (fun next disk ↦ next.entries.length = state.entries.length + 1 ∧
        OutputSize start output (size + input.encodedSize) disk)
      fun _ _ ↦ True := by
  refine ensures_bind (fun _ ↦ OutputSize start output size)
    (ensures_query (fun _ _ hdisk _ ↦ hdisk) fun _ _ _ _ ↦ trivial) fun source ↦ ?_
  by_cases hself : input.encodedPath = output
  · rw [if_pos hself]
    exact ensures_query (fun _ _ _ hvalue ↦ by cases hvalue) fun _ _ _ _ ↦ trivial
  rw [if_neg hself]
  refine ensures_bind _ (ensures_copyParts_size size _ _ rfl) fun copied ↦ ?_
  refine ensures_reject (fun _ _ _ ↦ trivial) fun hsize ↦ ?_
  refine ensures_reject (fun _ _ _ ↦ trivial) fun _ ↦ ?_
  rw [not_not.mp hsize]
  refine ensures_bind (fun _ ↦ OutputSize start output (size + input.encodedSize))
    (ensures_lift (fun _ _ hdisk _ ↦ hdisk) fun _ _ _ _ ↦ trivial) fun _ ↦ ?_
  exact ensures_pure fun disk hdisk ↦ ⟨by rw [length_append]; rfl, hdisk⟩

theorem ensures_copyChunks_size (size : ℕ) (inputs : List PackFileInput) (pack : hasher.State) :
    Process.Ensures (OutputSize start output size)
      (forEach (copyChunk hasher reads output) inputs
        { pack, entries := [], offset := headerSize }) (fun _ ↦ True)
      (fun state disk ↦ state.entries.length = inputs.length ∧
        OutputSize start output (size + (inputs.map PackFileInput.encodedSize).sum) disk)
      fun _ _ ↦ True := by
  refine Process.Ensures.mono (ensures_forEach (fun done state disk ↦
    state.entries.length = done.length ∧
      OutputSize start output (size + (done.map PackFileInput.encodedSize).sum) disk) ?_)
    (fun _ h ↦ ⟨rfl, h⟩) (fun _ h ↦ h) (fun _ _ h ↦ h) fun _ _ h ↦ h
  intro done input rest state _
  refine ensures_assume fun hcount ↦ ?_
  refine (ensures_copyChunk_size (size + (done.map PackFileInput.encodedSize).sum) input
    state).mono (fun _ h ↦ h) (fun _ h ↦ h) ?_ fun _ _ h ↦ h
  rintro next disk ⟨hentries, hdisk⟩
  refine ⟨by rw [hentries, hcount, length_append, length_singleton], ?_⟩
  rw [map_append, sum_append, map_singleton, sum_singleton, ← Nat.add_assoc]
  exact hdisk

theorem length_of_encodeEntry {entry : PackEntry} {record : Bytes}
    (h : encodeEntry entry = .ok record) : record.length = entrySize := by
  have hdecode {value : Text} {bytes : Bytes} (h : decodeHash value = .ok bytes) :
      bytes.length = 32 := by
    have hvalid : IsHash value := by
      simp only [decodeHash, bind_eq_ok, validateHash_eq_ok] at h
      exact h.choose_spec.1
    obtain ⟨decoded, hdecoded, hlength, -⟩ := decodeHash_of_isHash hvalid
    obtain rfl := Except.ok.inj (hdecoded.symm.trans h)
    exact hlength
  simp only [encodeEntry, bind_eq_ok, pure_eq_ok] at h
  obtain ⟨encodedHash, hencoded, rawHash, hraw, rfl⟩ := h
  simp only [flatten_cons, flatten_nil, length_append, length_nil,
    length_leBytes, hdecode hencoded, hdecode hraw]
  rfl

theorem length_of_writeIndex {entries : List PackEntry} {index : Bytes}
    (h : writeIndex entries [] = .ok index) : index.length = entries.length * entrySize := by
  obtain ⟨records, hrecords, rfl⟩ := writeIndex_eq_ok.mp h
  rw [nil_append, ← length_of_mapM_encodeEntry hrecords]
  refine length_flatten_of_width fun record hrecord ↦ ?_
  obtain ⟨position, hposition, rfl⟩ := getElem_of_mem hrecord
  have hpair := (forall₂_iff_get.mp (mapM_eq_ok.mp hrecords)).2 position
    (by rwa [← length_of_mapM_encodeEntry hrecords]) hposition
  exact length_of_encodeEntry hpair

/-- A group has become a file of the size of its layout, and only the output names have changed. -/
structure PackOfSize (start : Disk) (inputs : List PackFileInput) (destination temporary : Path)
    (file : PackFileArtifact) (disk : Disk) : Prop where
  isHash : IsHash file.packHash
  encodedSize : file.encodedSize = (layoutOf (inputs.map PackFileInput.encodedSize)).totalLength
  hasSize : HasSize (destination ++ [packName file.packHash]) file.encodedSize disk
  frame : ∀ other, other ≠ temporary → other ≠ destination ++ [packName file.packHash] →
    disk.node other = start.node other

theorem ensures_writePackBody_size (inputs : List PackFileInput) (destination temporary : Path) :
    Process.Ensures (fun disk ↦ disk = start)
      (writePackBody hasher reads inputs (layoutOf (inputs.map PackFileInput.encodedSize))
        destination temporary) (fun _ ↦ True)
      (fun file disk ↦ PackOfSize start inputs destination temporary file disk)
      fun _ _ ↦ True := by
  set layout := layoutOf (inputs.map PackFileInput.encodedSize) with hlayout
  have hheader : (streamHeader inputs.length layout).length = headerSize := by
    rw [streamHeader_eq, length_headerFields]
  refine ensures_bind (fun _ ↦ OutputSize start temporary 0)
    (ensures_diskStep ?_ fun _ _ _ _ ↦ trivial) fun _ ↦ ?_
  · rintro disk made rfl hwrite
    obtain ⟨-, hmade⟩ := writeFile_eq_ok hwrite
    simp only [pathKey_id] at hmade
    refine ⟨⟨[], ?_, rfl⟩, fun other hother ↦ by rw [hmade, if_neg hother]⟩
    rw [content_eq_some, hmade, if_pos rfl]
  refine ensures_bind _ (ensures_writeHashed_size 0 hasher.new
    (streamHeader inputs.length layout)) fun pack ↦ ?_
  rw [hheader, Nat.zero_add]
  refine ensures_bind _ (ensures_copyChunks_size headerSize inputs pack) fun state ↦ ?_
  refine ensures_assume fun hcount ↦ ?_
  set dataEnd := headerSize + (inputs.map PackFileInput.encodedSize).sum with hdataEnd
  refine ensures_bind (fun index disk ↦ index.length = inputs.length * entrySize ∧
    OutputSize start temporary dataEnd disk) (ensures_lift ?_ fun _ _ _ _ ↦ trivial)
    fun index ↦ ?_
  · intro disk index hdisk hindex
    exact ⟨by rw [length_of_writeIndex hindex, hcount], hdisk⟩
  refine ensures_assume fun hindex ↦ ?_
  refine ensures_bind _ (ensures_writeHashed_size dataEnd state.pack index)
    fun indexed ↦ ?_
  rw [hindex]
  set footer := streamFooter state.entries.length layout (hash index) with hfooter
  have hfooterLength : footer.length = footerSize := by
    rw [hfooter, streamFooter_eq, length_footerFields]
  refine ensures_bind _ (ensures_writeHashed_size (dataEnd + inputs.length * entrySize)
    indexed footer) fun finished ↦ ?_
  rw [hfooterLength]
  have htotal : dataEnd + inputs.length * entrySize + footerSize = layout.totalLength := by
    rw [hlayout, layoutOf, length_map]
  rw [htotal]
  set packHash := (hasher.finalize finished).hex with hpackHash
  refine ensures_bind (fun _ disk ↦
    HasSize (destination ++ [packName packHash]) layout.totalLength disk ∧
    ∀ other, other ≠ temporary → other ≠ destination ++ [packName packHash] →
      disk.node other = start.node other) (ensures_diskStep ?_ fun _ _ _ _ ↦ trivial) fun _ ↦ ?_
  · rintro disk made ⟨⟨content, hcontent, hlength⟩, hrest⟩ hmove
    obtain ⟨moved, hmoved, -, -, hmade⟩ := moveFile_eq_ok hmove
    simp only [pathKey_id] at hmade
    rw [content_eq_some, hmoved] at hcontent
    refine ⟨⟨content, ?_, hlength⟩, fun other hother hpack ↦ ?_⟩
    · rw [content_eq_some, hmade, if_pos rfl, hcontent]
    · rw [hmade, if_neg hpack, if_neg hother, hrest other hother]
  · exact ensures_pure fun disk hdisk ↦ ⟨Digest.isHash_hex _, rfl, hdisk.1, hdisk.2⟩

theorem ensures_writeFilePack_size (inputs : List PackFileInput) (destination : Path)
    (ordinal : ℕ) :
    Process.Ensures (fun disk ↦ disk = start)
      (writeFilePack hasher reads inputs destination ordinal) (fun _ ↦ True)
      (fun file disk ↦ PackOfSize start inputs destination (destination ++ [temporaryName ordinal])
        file disk)
      fun _ _ ↦ True := by
  refine ensures_bind (fun layout disk ↦
    layoutOf (inputs.map PackFileInput.encodedSize) = layout ∧ disk = start)
    (ensures_lift ?_ fun _ _ _ _ ↦ trivial) fun layout ↦ ?_
  · intro disk layout hdisk hlayout
    exact ⟨(checkedLayout_eq_ok.mp hlayout).2, hdisk⟩
  refine ensures_assume ?_
  rintro rfl
  refine ensures_tryCatch (fun _ _ ↦ True)
    (ensures_writePackBody_size inputs destination _) fun failure ↦ ?_
  refine ensures_bind (fun _ _ ↦ True)
    (ensures_step (fun _ _ ↦ trivial) (fun _ _ _ _ ↦ trivial) fun _ _ _ _ ↦ trivial)
    fun _ ↦ ?_
  exact ensures_query (fun _ _ _ hvalue ↦ by cases hvalue) fun _ _ _ _ ↦ trivial

/-- The groups have become files, in order. A file whose name no other group has taken with
another size is on the disk. -/
structure PacksOfSize (start : Disk) (destination : Path) (groups : List (List PackFileInput))
    (files : List PackFileArtifact) (disk : Disk) : Prop where
  isHash : ∀ file ∈ files, IsHash file.packHash
  encodedSize : List.Forall₂ (fun group file ↦ file.encodedSize =
    (layoutOf (group.map PackFileInput.encodedSize)).totalLength) groups files
  hasSize : ∀ file ∈ files,
    (∀ other ∈ files, other.packHash = file.packHash → other.encodedSize = file.encodedSize) →
    HasSize (destination ++ [packName file.packHash]) file.encodedSize disk
  kept : ∀ packHash, IsHash packHash → (∀ file ∈ files, file.packHash ≠ packHash) →
    disk.node (destination ++ [packName packHash]) = start.node (destination ++ [packName packHash])

theorem PackOfSize.cons {middle disk : Disk} {group : List PackFileInput} {destination : Path}
    {ordinal : ℕ} {file : PackFileArtifact} {rest : List (List PackFileInput)}
    {files : List PackFileArtifact}
    (hfile : PackOfSize start group destination (destination ++ [temporaryName ordinal]) file middle)
    (hrest : PacksOfSize middle destination rest files disk) :
    PacksOfSize start destination (group :: rest) (file :: files) disk where
  isHash := forall_mem_cons.mpr ⟨hfile.isHash, hrest.isHash⟩
  encodedSize := .cons hfile.encodedSize hrest.encodedSize
  hasSize := by
    intro found hfound hsame
    by_cases hlater : ∃ later ∈ files, later.packHash = found.packHash
    · obtain ⟨later, hmem, hname⟩ := hlater
      rw [← hname, ← hsame later (mem_cons_of_mem _ hmem) hname]
      refine hrest.hasSize later hmem fun other hother hotherName ↦ ?_
      rw [hsame other (mem_cons_of_mem _ hother) (hotherName.trans hname),
        hsame later (mem_cons_of_mem _ hmem) hname]
    · rcases mem_cons.mp hfound with rfl | hfound
      · obtain ⟨content, hcontent, hlength⟩ := hfile.hasSize
        refine ⟨content, ?_, hlength⟩
        rw [FileTree.content, hrest.kept _ hfile.isHash fun later hmem hname ↦
          hlater ⟨later, hmem, hname⟩]
        exact hcontent
      · exact absurd ⟨found, hfound, rfl⟩ hlater
  kept := by
    intro packHash hpackHash hothers
    rw [forall_mem_cons] at hothers
    rw [hrest.kept packHash hpackHash hothers.2]
    refine hfile.frame _ (fun hname ↦ ?_) fun hname ↦ ?_
    · exact packName_ne_temporaryName hpackHash ordinal (by simpa using hname)
    · have heq : packName packHash = packName file.packHash := by simpa using hname
      exact hothers.1 (append_cancel_right heq).symm

theorem ensures_writeGroups_size (destination : Path) (groups : List (List PackFileInput))
    (ordinal : ℕ) (start : Disk) :
    Process.Ensures (fun disk ↦ disk = start) (writeGroups hasher reads destination groups ordinal)
      (fun _ ↦ True) (fun files disk ↦ PacksOfSize start destination groups files disk)
      fun _ _ ↦ True := by
  induction groups generalizing ordinal start with
  | nil =>
    refine ensures_pure ?_
    rintro disk rfl
    exact ⟨by simp, .nil, by simp, fun _ _ _ ↦ rfl⟩
  | cons group rest ih =>
    refine ensures_bind _ (ensures_writeFilePack_size group destination ordinal)
      fun file ↦ ?_
    refine ensures_of_state fun middle hmiddle ↦ ?_
    refine ensures_bind _ (ih (ordinal + 1) middle) fun files ↦ ?_
    exact ensures_pure fun disk hdisk ↦ hmiddle.cons hdisk

/-- The groups into which the writer splits its inputs. -/
def fileGroups (config : PackConfig) (inputs : List PackFileInput) : List (List PackFileInput) :=
  groupInputs config PackFileInput.encodedSize (sortedFiles inputs)

theorem ensures_writePacksFromFiles_size (config : PackConfig) (inputs : List PackFileInput)
    (destination : Path) :
    Process.Ensures (fun _ ↦ True) (writePacksFromFiles hasher reads inputs config destination)
      (fun _ ↦ True)
      (fun files disk ↦ config.validate = .ok () ∧
        ∃ middle, PacksOfSize middle destination (fileGroups config inputs) files disk)
      fun _ _ ↦ True := by
  have hchecks {α : Type} (process : DiskProcess α) :
      Process.Ensures (fun _ ↦ True) process (fun _ ↦ True) (fun _ _ ↦ True) fun _ _ ↦ True :=
    fun _ _ ↦ ⟨fun _ _ ↦ trivial, fun _ _ ↦ trivial, fun _ _ ↦ trivial⟩
  refine ensures_bind (fun _ _ ↦ config.validate = .ok () ∧ True)
    (ensures_lift (fun _ _ _ hok ↦ ⟨hok, trivial⟩) fun _ _ _ _ ↦ trivial) fun _ ↦ ?_
  refine ensures_assume fun hconfig ↦ ?_
  refine ensures_bind (fun _ _ ↦ True) (hchecks _) fun _ ↦ ?_
  refine ensures_bind (fun _ _ ↦ True) (hchecks _) fun _ ↦ ?_
  refine ensures_bind (fun _ _ ↦ True) (hchecks _) fun _ ↦ ?_
  refine ensures_of_state fun middle _ ↦ ?_
  exact (ensures_writeGroups_size destination (fileGroups config inputs) 0 middle).mono
    (fun _ h ↦ h) (fun _ h ↦ h) (fun _ _ h ↦ ⟨hconfig, middle, h⟩) fun _ _ h ↦ h

end Sizes

/-! ### Every pack can be renewed -/

/-- The packs of a run of the streaming writer pass the size check of the renewal with the same
maximum exactly when the chunks of every group, with 96 bytes for each, leave room for the header
and the footer. Each pack that no other pack of the run has replaced is on the disk in its size.

Assumes: the writer succeeds. -/
theorem writePacksFromFiles_renewable_iff (hash : Bytes → Digest) (hasher : IncrementalHasher hash)
    (reads : ReadPolicy) (config : PackConfig) (inputs : List PackFileInput) (destination : Path)
    (start : Disk) (files : List PackFileArtifact)
    (hfiles : (writePacksFromFiles hasher reads inputs config destination start).result =
      .ok files) :
    ((∀ file ∈ files, PassesSizeCheck hasher config.maxBytes file.encodedSize) ↔
      ∀ group ∈ fileGroups config inputs,
        headerSize + (group.map PackFileInput.encodedSize).sum + group.length * entrySize +
          footerSize ≤ config.maxBytes) ∧
    ∀ file ∈ files,
      (∀ other ∈ files, other.packHash = file.packHash → other.encodedSize = file.encodedSize) →
      HasSize (destination ++ [packName file.packHash]) file.encodedSize
        (writePacksFromFiles hasher reads inputs config destination start).final := by
  have hrun : Process.Ensures _ (writePacksFromFiles hasher reads inputs config destination) _ _ _ :=
    ensures_writePacksFromFiles_size config inputs destination
  obtain ⟨hconfig, middle, hpacks⟩ := (hrun start trivial).2.1 files hfiles
  have hmax : config.maxBytes < u64Size := by
    have hsmall : maxPackBytes < u64Size := by decide
    simp only [PackConfig.validate, rejectIf_eq_ok, not_or, not_lt] at hconfig
    omega
  have hsizes : files.map PackFileArtifact.encodedSize = (fileGroups config inputs).map fun group ↦
      (layoutOf (group.map PackFileInput.encodedSize)).totalLength := by
    rw [← forall₂_eq_eq_eq, forall₂_map_left_iff, forall₂_map_right_iff]
    exact hpacks.encodedSize.flip
  refine ⟨?_, hpacks.hasSize⟩
  simp only [passesSizeCheck_iff hasher config.maxBytes hmax]
  have hall := forall_mem_map (P := (· ≤ config.maxBytes)) (f := PackFileArtifact.encodedSize)
    (l := files)
  rw [← hall, hsizes, forall_mem_map]
  simp only [layoutOf, length_map]

def zeroChunkFile : PackFileInput where
  encodedHash := zeroChunkDigests.1.hex
  rawHash := zeroChunkDigests.1.hex
  rawSize := 1
  encodedSize := 1
  encodedPath := ["chunk"]

def zeroChunkDisk : Disk :=
  .ofEntries [([], .directory), (["chunk"], .file [0])] (by decide) (by decide)

def zeroChunkRun (config : PackConfig) : Outcome Disk (Fault PackError) (List PackFileArtifact) :=
  writePacksFromFiles (bytesHasher pairHash) fullReads [zeroChunkFile] config ["packs"]
    zeroChunkDisk

/-- With the default maximum the pack of one byte can be renewed. -/
theorem writePacksFromFiles_renewable_oneByte :
    ∃ files, (zeroChunkRun {}).result = .ok files ∧
      ∀ file ∈ files, PassesSizeCheck (bytesHasher pairHash) defaultMaxBytes file.encodedSize := by
  have hsome : (zeroChunkRun {}).result.toOption.isSome = true := by decide +kernel
  obtain ⟨files, hfiles⟩ := Option.isSome_iff_exists.mp hsome
  rw [toOption_eq_some] at hfiles
  refine ⟨files, hfiles, ?_⟩
  exact (writePacksFromFiles_renewable_iff pairHash (bytesHasher pairHash) fullReads {}
    [zeroChunkFile] ["packs"] zeroChunkDisk files hfiles).1.mpr (by decide)

/-- The pack of one byte is 233 bytes long. With a maximum of 16 bytes the writer makes it and the
renewal refuses it. -/
theorem writePacksFromFiles_not_renewable :
    singletonConfig.validate = .ok () ∧
    ∃ files, (zeroChunkRun singletonConfig).result = .ok files ∧
      ∃ file ∈ files, ¬ PassesSizeCheck (bytesHasher pairHash) singletonConfig.maxBytes
        file.encodedSize := by
  have hsize : (zeroChunkRun singletonConfig).result.toOption.map
      (List.map PackFileArtifact.encodedSize) = some [233] := by decide +kernel
  obtain ⟨files, hfiles, hsizes⟩ := Option.map_eq_some_iff.mp hsize
  obtain ⟨file, rfl, hfile⟩ := map_eq_singleton_iff.mp hsizes
  refine ⟨rfl, [file], toOption_eq_some.mp hfiles, file, mem_singleton_self _, ?_⟩
  rw [passesSizeCheck_iff _ _ (by decide), hfile]
  decide

end GameLauncher.Packs
