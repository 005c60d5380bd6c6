import GameLauncher.Manifests.ManifestValidator

/-!
# What the server's validation of a manifest means

`Manifest.validate` runs over the files and their chunks with a set of paths, a map from encoded
hashes to chunks and a checked sum, and stops at the first error. `IsValid` says the same without an
order: which fields are supported, and what holds of every file, of every chunk and of every two of
them.

`HasStatedForm` is the part of it that speaks about formats, paths, sums, hashes and the executable.
It is not all that the validation asks for: `validate_refuses_otherKey` is a manifest of this form
with an object key that the validation refuses.
-/

set_option autoImplicit false

namespace GameLauncher.Manifests

open Foundation Fallible List

/-! ### The conditions -/

def allChunks (files : List FileRecipe) : List ChunkRef := files.flatMap FileRecipe.chunks

/-- Every encoded hash is described by one raw hash, one raw size and one encoded size. -/
def HasOneDescription (chunks : List ChunkRef) : Prop :=
  ∀ chunk ∈ chunks, ∀ other ∈ chunks, chunk.encodedHash = other.encodedHash →
    chunk.rawHash = other.rawHash ∧ chunk.rawSize = other.rawSize ∧
      chunk.encodedSize = other.encodedSize

/-- The format fields, the files with their paths, sizes and hashes, and the executable. -/
structure HasStatedForm (unicode : Unicode) (manifest : Manifest) : Prop where
  schemaVersion : manifest.schemaVersion = 1
  chunkingFormat : manifest.chunking.algorithm = "fastcdc" ∧ manifest.chunking.formatVersion = 1
  chunkingBounds : 0 < manifest.chunking.minimumBytes ∧
    manifest.chunking.minimumBytes ≤ manifest.chunking.averageBytes ∧
    manifest.chunking.averageBytes ≤ manifest.chunking.maximumBytes
  encoding : manifest.encoding.id = "zstd-v1-level-3" ∧ manifest.encoding.level = 3
  nonempty : manifest.files ≠ []
  paths : ∀ file ∈ manifest.files, IsPortablePath unicode file.path ∧
    normalizeManifestPath unicode file.path = .ok file.path
  distinct : (manifest.files.map FileRecipe.path).Nodup
  sizes : ∀ file ∈ manifest.files, (file.chunks.map ChunkRef.rawSize).sum = file.size ∧
    (file.chunks.map ChunkRef.rawSize).sum < u64Size
  descriptions : HasOneDescription (allChunks manifest.files)
  fileHashes : ∀ file ∈ manifest.files, IsHash file.blake3
  chunkHashes : ∀ chunk ∈ allChunks manifest.files, IsHash chunk.rawHash ∧ IsHash chunk.encodedHash
  executable : ∃ file ∈ manifest.files, file.path = manifest.launch.executable

/-- What the validation asks for beyond the stated form. -/
structure IsValid (unicode : Unicode) (manifest : Manifest) : Prop
    extends HasStatedForm unicode manifest where
  identity : ¬ IsBlank manifest.manifestId ∧ ¬ IsBlank manifest.gameId ∧
    ¬ IsBlank manifest.buildId ∧ ¬ IsBlank manifest.displayVersion
  chunkSizes : ∀ chunk ∈ allChunks manifest.files, 0 < chunk.rawSize ∧ 0 < chunk.encodedSize
  objectKeys : ∀ chunk ∈ allChunks manifest.files,
    chunk.objectKey = chunkObjectKey chunk.encodedHash
  workingDirectory : manifest.launch.workingDirectory ≠ "." →
    IsPortablePath unicode manifest.launch.workingDirectory

/-! ### The map of chunks -/

section Chunks

variable {done chunks : List ChunkRef} {table : List (Text × ChunkRef)}

/-- The map holds exactly the chunks of the rounds done, each under its encoded hash. -/
def Recorded (done : List ChunkRef) (table : List (Text × ChunkRef)) : Prop :=
  ∀ hash chunk, table.lookup hash = some chunk ↔ chunk ∈ done ∧ chunk.encodedHash = hash

/-- Sound chunks, no two of which differ under one encoded hash. -/
structure AcceptableChunks (chunks : List ChunkRef) : Prop where
  sound : ∀ chunk ∈ chunks, IsSoundChunk chunk
  same : ∀ chunk ∈ chunks, ∀ other ∈ chunks, chunk.encodedHash = other.encodedHash → chunk = other

theorem AcceptableChunks.of_append (h : AcceptableChunks (done ++ chunks)) :
    AcceptableChunks done where
  sound := fun chunk hchunk ↦ h.sound chunk (mem_append_left _ hchunk)
  same := fun chunk hchunk other hother ↦ h.same chunk (mem_append_left _ hchunk) other
    (mem_append_left _ hother)

theorem recorded_recordChunk (h : Recorded done table) (chunk : ChunkRef) :
    ((∃ next, recordChunk table chunk = some next) ↔
      ∀ other ∈ done, other.encodedHash = chunk.encodedHash → other = chunk) ∧
    ∀ next, recordChunk table chunk = some next → Recorded (done ++ [chunk]) next := by
  unfold recordChunk
  cases hlookup : table.lookup chunk.encodedHash with
  | none =>
    have hnew : ∀ other ∈ done, other.encodedHash ≠ chunk.encodedHash := by
      intro other hother hsame
      have hfound := (h _ other).mpr ⟨hother, hsame⟩
      rw [hlookup] at hfound
      cases hfound
    refine ⟨iff_of_true ⟨_, rfl⟩ fun other hother hsame ↦ absurd hsame (hnew other hother), ?_⟩
    rintro _ ⟨⟩ hash found
    rw [lookup_cons, mem_append, mem_singleton]
    by_cases hhash : hash = chunk.encodedHash
    · subst hhash
      simp only [beq_self_eq_true, Option.some.injEq]
      constructor
      · rintro rfl
        exact ⟨.inr rfl, rfl⟩
      · rintro ⟨hfound | rfl, hsame⟩
        · exact absurd hsame (hnew found hfound)
        · rfl
    · rw [show (hash == chunk.encodedHash) = false from beq_eq_false_iff_ne.mpr hhash]
      simp only [h hash found]
      constructor
      · rintro ⟨hfound, hsame⟩
        exact ⟨.inl hfound, hsame⟩
      · rintro ⟨hfound | rfl, hsame⟩
        · exact ⟨hfound, hsame⟩
        · exact absurd hsame.symm hhash
  | some existing =>
    obtain ⟨hexisting, hexistingHash⟩ := (h _ existing).mp hlookup
    have honly : ∀ other ∈ done, other.encodedHash = chunk.encodedHash → other = existing := by
      intro other hother hsame
      have hfound := (h _ other).mpr ⟨hother, hsame⟩
      rw [hlookup] at hfound
      exact (Option.some.inj hfound).symm
    by_cases hsame : existing = chunk
    · simp only [if_pos hsame]
      refine ⟨iff_of_true ⟨_, rfl⟩ fun other hother hhash ↦ (honly other hother hhash).trans hsame,
        ?_⟩
      rintro _ ⟨⟩ hash found
      rw [h hash found, mem_append, mem_singleton]
      constructor
      · rintro ⟨hfound, hhash⟩
        exact ⟨.inl hfound, hhash⟩
      · rintro ⟨hfound | rfl, hhash⟩
        · exact ⟨hfound, hhash⟩
        · exact ⟨hsame ▸ hexisting, hhash⟩
    · simp only [if_neg hsame]
      refine ⟨iff_of_false (by simp) fun hall ↦ hsame (hall existing hexisting hexistingHash), ?_⟩
      rintro _ ⟨⟩

theorem acceptableChunks_concat (hdone : AcceptableChunks done) (chunk : ChunkRef) :
    AcceptableChunks (done ++ [chunk]) ↔ IsSoundChunk chunk ∧
      ∀ other ∈ done, other.encodedHash = chunk.encodedHash → other = chunk := by
  constructor
  · intro h
    have hmem : chunk ∈ done ++ [chunk] := mem_append_right _ (mem_singleton_self _)
    exact ⟨h.sound chunk hmem, fun other hother ↦
      h.same other (mem_append_left _ hother) chunk hmem⟩
  · rintro ⟨hsound, hsame⟩
    refine ⟨fun other hother ↦ ?_, fun first hfirst second hsecond hhash ↦ ?_⟩
    · rcases mem_append.mp hother with hother | hother
      · exact hdone.sound other hother
      · exact mem_singleton.mp hother ▸ hsound
    · rcases mem_append.mp hfirst with hfirst | hfirst
      · rcases mem_append.mp hsecond with hsecond | hsecond
        · exact hdone.same first hfirst second hsecond hhash
        · rw [mem_singleton.mp hsecond] at hhash ⊢
          exact hsame first hfirst hhash
      · rw [mem_singleton.mp hfirst] at hhash ⊢
        rcases mem_append.mp hsecond with hsecond | hsecond
        · exact (hsame second hsecond hhash.symm).symm
        · exact (mem_singleton.mp hsecond).symm

theorem validateChunks_iff_acceptable (path : Text) (htable : Recorded done table)
    (hdone : AcceptableChunks done) (chunks : List ChunkRef) :
    ((∃ result, chunks.foldlM (validateChunk path) table = .ok result) ↔
      AcceptableChunks (done ++ chunks)) ∧
    ∀ result, chunks.foldlM (validateChunk path) table = .ok result →
      Recorded (done ++ chunks) result := by
  refine foldlM_accepts (fun h ↦ h.of_append) (fun {done table} htable hdone chunk ↦ ?_) htable
    hdone chunks
  obtain ⟨haccepts, hnext⟩ := recorded_recordChunk htable chunk
  simp only [validateChunk_eq_ok, exists_and_left, haccepts, acceptableChunks_concat hdone,
    true_and]
  exact fun next hchunk ↦ hnext next hchunk.2

end Chunks

/-! ### The files -/

section Files

variable {unicode : Unicode} {done files : List FileRecipe}

/-- Sound files with different paths and acceptable chunks. -/
structure AcceptableFiles (unicode : Unicode) (files : List FileRecipe) : Prop where
  sound : ∀ file ∈ files, IsSoundFile unicode file ∧ file.size < u64Size
  distinct : (files.map FileRecipe.path).Nodup
  chunks : AcceptableChunks (allChunks files)

/-- The state of the loop holds the paths and the chunks of the rounds done. -/
structure Represents (done : List FileRecipe) (seen : Seen) : Prop where
  paths : ∀ path, path ∈ seen.paths ↔ path ∈ done.map FileRecipe.path
  chunks : Recorded (allChunks done) seen.chunksByEncodedHash

theorem allChunks_append (first second : List FileRecipe) :
    allChunks (first ++ second) = allChunks first ++ allChunks second :=
  flatMap_append

theorem allChunks_singleton (file : FileRecipe) : allChunks [file] = file.chunks := by
  simp [allChunks]

theorem AcceptableFiles.of_append (h : AcceptableFiles unicode (done ++ files)) :
    AcceptableFiles unicode done where
  sound := fun file hfile ↦ h.sound file (mem_append_left _ hfile)
  distinct := by
    have hall := h.distinct
    rw [map_append] at hall
    exact (nodup_append.mp hall).1
  chunks := by
    have hall := h.chunks
    rw [allChunks_append] at hall
    exact hall.of_append

theorem acceptableFiles_concat (hdone : AcceptableFiles unicode done) (file : FileRecipe) :
    AcceptableFiles unicode (done ++ [file]) ↔ (IsSoundFile unicode file ∧ file.size < u64Size) ∧
      file.path ∉ done.map FileRecipe.path ∧
      AcceptableChunks (allChunks done ++ file.chunks) := by
  have hpaths : ((done ++ [file]).map FileRecipe.path).Nodup ↔
      file.path ∉ done.map FileRecipe.path := by
    rw [map_append, map_singleton, nodup_append, nodup_cons]
    simp only [hdone.distinct, mem_singleton]
    constructor
    · rintro ⟨-, -, hne⟩ hmem
      exact hne file.path hmem file.path rfl rfl
    · intro hnew
      refine ⟨trivial, ⟨not_mem_nil, nodup_nil⟩, ?_⟩
      rintro path hpath _ rfl rfl
      exact hnew hpath
  have hchunks : allChunks (done ++ [file]) = allChunks done ++ file.chunks := by
    rw [allChunks_append, allChunks_singleton]
  constructor
  · intro h
    exact ⟨h.sound file (mem_append_right _ (mem_singleton_self _)),
      hpaths.mp h.distinct, hchunks ▸ h.chunks⟩
  · rintro ⟨hsound, hnew, hall⟩
    refine ⟨fun other hother ↦ ?_, hpaths.mpr hnew, hchunks.symm ▸ hall⟩
    rcases mem_append.mp hother with hother | hother
    · exact hdone.sound other hother
    · exact mem_singleton.mp hother ▸ hsound

theorem validateFiles_iff_acceptable (unicode : Unicode) (files : List FileRecipe) :
    (∃ seen, files.foldlM (validateFile unicode) ⟨[], []⟩ = .ok seen) ↔
      AcceptableFiles unicode files := by
  have hstart : Represents [] ⟨[], []⟩ := ⟨by simp, by simp [Recorded, allChunks]⟩
  have hnone : AcceptableFiles unicode [] :=
    ⟨by simp, nodup_nil, by simp [allChunks], by simp [allChunks]⟩
  refine (foldlM_accepts (fun h ↦ h.of_append) (fun {done seen} hseen hdone file ↦ ?_) hstart
    hnone files).1
  obtain ⟨haccepts, hnext⟩ := validateChunks_iff_acceptable file.path hseen.chunks hdone.chunks
    file.chunks
  rw [acceptableFiles_concat hdone, ← haccepts, ← hseen.paths]
  simp only [validateFile_eq_ok]
  constructor
  · constructor
    · rintro ⟨_, hsound, hnew, chunks, hchunks, -⟩
      exact ⟨hsound, hnew, chunks, hchunks⟩
    · rintro ⟨hsound, hnew, chunks, hchunks⟩
      exact ⟨_, hsound, hnew, chunks, hchunks, rfl⟩
  · rintro _ ⟨-, -, chunks, hchunks, rfl⟩
    refine ⟨fun path ↦ ?_, ?_⟩
    · rw [mem_cons, hseen.paths, map_append, mem_append, map_singleton, mem_singleton, or_comm]
    · rw [allChunks_append, allChunks_singleton]
      exact hnext chunks hchunks

end Files

/-! ### The whole validation -/

theorem hasOneDescription_iff {chunks : List ChunkRef}
    (hkeys : ∀ chunk ∈ chunks, chunk.objectKey = chunkObjectKey chunk.encodedHash) :
    HasOneDescription chunks ↔ ∀ chunk ∈ chunks, ∀ other ∈ chunks,
      chunk.encodedHash = other.encodedHash → chunk = other := by
  constructor
  · intro h chunk hchunk other hother hsame
    obtain ⟨hrawHash, hrawSize, hencodedSize⟩ := h chunk hchunk other hother hsame
    have hkey : chunk.objectKey = other.objectKey := by
      rw [hkeys chunk hchunk, hkeys other hother, hsame]
    cases chunk
    cases other
    simp only at hrawHash hrawSize hencodedSize hkey hsame
    rw [hrawHash, hrawSize, hencodedSize, hkey, hsame]
  · intro h chunk hchunk other hother hsame
    rw [h chunk hchunk other hother hsame]
    exact ⟨rfl, rfl, rfl⟩

theorem IsValid.acceptable {unicode : Unicode} {manifest : Manifest}
    (h : IsValid unicode manifest) : AcceptableFiles unicode manifest.files where
  sound := fun file hfile ↦ by
    obtain ⟨hsum, hrange⟩ := h.sizes file hfile
    exact ⟨⟨(h.paths file hfile).1, h.fileHashes file hfile, hsum⟩, hsum ▸ hrange⟩
  distinct := h.distinct
  chunks :=
    { sound := fun chunk hchunk ↦
        { rawSize_pos := (h.chunkSizes chunk hchunk).1
          encodedSize_pos := (h.chunkSizes chunk hchunk).2
          rawHash := (h.chunkHashes chunk hchunk).1
          encodedHash := (h.chunkHashes chunk hchunk).2
          objectKey := h.objectKeys chunk hchunk }
      same := (hasOneDescription_iff h.objectKeys).mp h.descriptions }

/-- `is_reserved_windows_name`, with the panic of an index that is out of range. -/
def isReservedWindowsNameIndexed (part : Text) : Fallible ManifestValidationError Bool :=
  let stem := toAsciiUppercase ((part.splitOn '.').headD [])
  if ["CON".toList, "PRN".toList, "AUX".toList, "NUL".toList].contains stem then .ok true
  else if (utf8 stem).length = 4 ∧ ("COM" <+: stem ∨ "LPT" <+: stem) then do
    let byte ← orThrow (utf8 stem)[3]? .panic
    return (48 ≤ byte.toNat && byte.toNat ≤ 57) && 49 ≤ byte.toNat && byte.toNat ≤ 57
  else .ok false

theorem isReservedWindowsNameIndexed_eq_ok (part : Text) :
    isReservedWindowsNameIndexed part = .ok (isReservedWindowsName part) := by
  unfold isReservedWindowsNameIndexed isReservedWindowsName
  set stem := toAsciiUppercase ((part.splitOn '.').headD [])
  dsimp only
  by_cases hdevice : ["CON".toList, "PRN".toList, "AUX".toList, "NUL".toList].contains stem = true
  · rw [if_pos hdevice, hdevice, Bool.true_or]
  rw [if_neg hdevice, Bool.eq_false_iff.mpr hdevice, Bool.false_or]
  by_cases hfour : (utf8 stem).length = 4 ∧ ("COM".toList <+: stem ∨ "LPT".toList <+: stem)
  · obtain ⟨hlength, hword⟩ := hfour
    have hbyte : (utf8 stem)[3]? = some ((utf8 stem).getD 3 0) := by
      rw [getD_eq_getElem?_getD, List.getElem?_eq_getElem (by omega), Option.getD_some]
    have hinitial : ("COM".toList.isPrefixOf stem || "LPT".toList.isPrefixOf stem) = true := by
      simpa only [Bool.or_eq_true, isPrefixOf_iff_prefix] using hword
    rw [if_pos ⟨hlength, hword⟩, hbyte, hinitial, beq_iff_eq.mpr hlength]
    rfl
  · rw [if_neg hfour]
    rw [not_and_or, not_or] at hfour
    rcases hfour with hlength | ⟨hcom, hlpt⟩
    · rw [beq_eq_false_iff_ne.mpr hlength]
      rfl
    · rw [← isPrefixOf_iff_prefix, Bool.not_eq_true] at hcom hlpt
      rw [hcom, hlpt, Bool.or_false, Bool.and_false]
      rfl

/-- **A manifest passes the server's validation exactly when it is valid.** The one index that the
validation reads is never out of range. -/
theorem validate_iff_isValid (unicode : Unicode) (manifest : Manifest) :
    (manifest.validate unicode = .ok () ↔ IsValid unicode manifest) ∧
      ∀ part, isReservedWindowsNameIndexed part = .ok (isReservedWindowsName part) := by
  refine ⟨?_, isReservedWindowsNameIndexed_eq_ok⟩
  rw [Manifest.validate_eq_ok, validateFiles_iff_acceptable, validateLaunch_eq_ok]
  constructor
  · rintro ⟨hschema, hidentity, ⟨halgorithm, hversion, hbounds⟩, hencoding, hfiles, -,
      ⟨owner, howner, hexecutable⟩, hworking⟩
    have hkeys : ∀ chunk ∈ allChunks manifest.files,
        chunk.objectKey = chunkObjectKey chunk.encodedHash :=
      fun chunk hchunk ↦ (hfiles.chunks.sound chunk hchunk).objectKey
    exact
      { schemaVersion := hschema
        chunkingFormat := ⟨halgorithm, hversion⟩
        chunkingBounds := hbounds
        encoding := hencoding
        nonempty := ne_nil_of_mem howner
        paths := fun file hfile ↦ by
          have hpath := (hfiles.sound file hfile).1.path
          exact ⟨hpath, normalizeManifestPath_eq_ok.mpr ⟨hpath, rfl⟩⟩
        distinct := hfiles.distinct
        sizes := fun file hfile ↦ by
          obtain ⟨hsound, hrange⟩ := hfiles.sound file hfile
          exact ⟨hsound.size, hsound.size ▸ hrange⟩
        descriptions := (hasOneDescription_iff hkeys).mpr hfiles.chunks.same
        fileHashes := fun file hfile ↦ (hfiles.sound file hfile).1.blake3
        chunkHashes := fun chunk hchunk ↦ ⟨(hfiles.chunks.sound chunk hchunk).rawHash,
          (hfiles.chunks.sound chunk hchunk).encodedHash⟩
        executable := ⟨owner, howner, hexecutable⟩
        identity := hidentity
        chunkSizes := fun chunk hchunk ↦ ⟨(hfiles.chunks.sound chunk hchunk).rawSize_pos,
          (hfiles.chunks.sound chunk hchunk).encodedSize_pos⟩
        objectKeys := hkeys
        workingDirectory := hworking }
  · intro h
    obtain ⟨owner, howner, hexecutable⟩ := h.executable
    exact ⟨h.schemaVersion, h.identity, ⟨h.chunkingFormat.1, h.chunkingFormat.2,
      h.chunkingBounds⟩, h.encoding, h.acceptable, hexecutable ▸ (h.paths owner howner).1,
      ⟨owner, howner, hexecutable⟩, h.workingDirectory⟩

/-- A build of one file with one chunk, which is stored under a given object key. -/
def oneChunkManifest (objectKey : Text) : Manifest where
  schemaVersion := 1
  manifestId := "manifest-1"
  gameId := "game-1"
  buildId := "build-1"
  displayVersion := "1.0"
  chunking := ChunkingConfig.standard
  encoding := EncodingConfig.standard
  files :=
    [{ path := "game.exe"
       size := 1
       blake3 := List.replicate 64 '0'
       chunks := [{ rawHash := List.replicate 64 '0', rawSize := 1,
                    encodedHash := List.replicate 64 '1', encodedSize := 9, objectKey }] }]
  launch := { executable := "game.exe", workingDirectory := "." }

/-- A manifest of the stated form whose chunk has another object key than its encoded hash says is
refused. -/
theorem validate_refuses_otherKey :
    HasStatedForm ManifestValidator.asciiUnicode (oneChunkManifest "elsewhere") ∧
      (oneChunkManifest "elsewhere").validate ManifestValidator.asciiUnicode =
        .error (.path "elsewhere") := by
  have hhash (c : Char) (hc : IsHexChar c) : IsHash (List.replicate 64 c) :=
    ⟨length_replicate, fun d hd ↦ eq_of_mem_replicate hd ▸ hc⟩
  have hzero : IsHash (List.replicate 64 '0') := hhash '0' (by unfold IsHexChar; decide)
  have hone : IsHash (List.replicate 64 '1') := hhash '1' (by unfold IsHexChar; decide)
  have hpath : normalizeManifestPath ManifestValidator.asciiUnicode "game.exe" =
      .ok "game.exe" := by decide
  refine ⟨?_, by decide⟩
  exact
    { schemaVersion := rfl
      chunkingFormat := ⟨rfl, rfl⟩
      chunkingBounds := by decide
      encoding := ⟨rfl, rfl⟩
      nonempty := by decide
      paths := by
        rintro _ (_ | ⟨_, ⟨⟩⟩)
        exact ⟨(normalizeManifestPath_eq_ok.mp hpath).1, hpath⟩
      distinct := by decide
      sizes := by
        rintro _ (_ | ⟨_, ⟨⟩⟩)
        exact ⟨rfl, by decide⟩
      descriptions := by
        rintro _ (_ | ⟨_, ⟨⟩⟩) _ (_ | ⟨_, ⟨⟩⟩) -
        exact ⟨rfl, rfl, rfl⟩
      fileHashes := by
        rintro _ (_ | ⟨_, ⟨⟩⟩)
        exact hzero
      chunkHashes := by
        rintro _ (_ | ⟨_, ⟨⟩⟩)
        exact ⟨hzero, hone⟩
      executable := ⟨_, mem_cons_self, rfl⟩ }

end GameLauncher.Manifests
